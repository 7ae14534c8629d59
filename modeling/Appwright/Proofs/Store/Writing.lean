import Appwright.Proofs.Entries
import Appwright.Proofs.Store.Schema
import Mathlib.Data.List.Pairwise

/-!
# Writing the store

A payload is read field by field. A field keeps a value if it can be made fit for the field's type
and bound to a statement; the column then converts it to its kind (`kept?`). The statements that add
and change rows are given the values of all fields at once, by name, and each column looks for its
own among them. In a table for a declarable model each finds exactly the value of its field
(`given?`), so a new row has these and else nothing, and a changed row keeps what it is not given.

For each operation it is said when it fails, that the store is then as it was, and what is in the
table if it does not (`insert_cases`, `update_cases`, `delete_cases`).
-/

namespace Appwright.Store

open List Spec Json Entries Value

/-! ## Values that a field keeps -/

/-- The value that a field of a type keeps of a given one, if it keeps any. -/
def kept? (type : FieldType) (v : Json) : Option Json :=
  match coerce type v with
  | .error _ => none
  | .ok w =>
    match bind 0 w, affinityOf type with
    | .ok cell, .ok affinity => some (cell.convert affinity).toJson
    | _, _ => none

def given? (m : Model) (data : Members) (field : String) : Option Json := do
  let type ← m.fields.get? field
  let v ← data.get? field
  kept? type v

/-- A payload has a value for a field of a model that the field does not keep. -/
def Unkeepable (m : Model) (data : Members) : Prop :=
  ∃ f ∈ m.fields, ∃ v, data.get? f.1 = some v ∧ kept? f.2 v = none

def Unrelated (m : Model) (data : Members) : Prop :=
  ∀ f ∈ m.fields.names, data.has f = false

variable {pos : Nat} {type : FieldType} {values : List (String × Json)} {v : Json} {m : Model}
  {data : Members} {named : List (String × Value)} {t : Table}

theorem bind_eq_ok_zero_iff {w : Value} : bind pos v = .ok w ↔ bind 0 v = .ok w := by
  cases v <;> simp [bind]

theorem kept?_eq_some {w : Json} {cell : Value} {a : Affinity} (fit : coerce type v = .ok w)
    (hb : bind 0 w = .ok cell) (hk : affinityOf type = .ok a) :
    kept? type v = some (cell.convert a).toJson := by
  unfold kept?
  rw [fit]
  dsimp only
  rw [hb, hk]

theorem exists_of_kept? (h : kept? type v ≠ none) :
    ∃ w cell, coerce type v = .ok w ∧ bind 0 w = .ok cell := by
  unfold kept? at h
  split at h
  · exact absurd rfl h
  · rename_i w fit
    split at h
    · rename_i cell _ hb _
      exact ⟨w, cell, fit, hb⟩
    · exact absurd rfl h

/-! ## Values by name -/

def Named (m : Model) (data : Members) (named : List (String × Value)) : Prop :=
  Forall₂ (fun f e => e.1 = f.1 ∧
      ∃ w, coerce f.2 ((data.get? f.1).getD .null) = .ok w ∧ bind 0 w = .ok e.2)
    (m.fields.filter fun f => data.has f.1) named

theorem fieldValues_eq_ok_iff : fieldValues m data = .ok values ↔
      Forall₂ (fun f e => e.1 = f.1 ∧ coerce f.2 ((data.get? f.1).getD .null) = .ok e.2)
        (m.fields.filter fun f => data.has f.1) values := by
  unfold fieldValues
  rw [mapM_eq_ok_iff]
  have one (f : String × FieldType) (e : String × Json) : (do
      let v ← (coerce f.2 ((data.get? f.1).getD .null)).mapError Error.number
      return (f.1, v) : Except Error (String × Json)) = .ok e ↔
        e.1 = f.1 ∧ coerce f.2 ((data.get? f.1).getD .null) = .ok e.2 := by
    cases coerce f.2 ((data.get? f.1).getD .null) with
    | error err => exact ⟨fun h => (by cases h), fun h => (by cases h.2)⟩
    | ok v =>
      constructor
      · intro h
        cases h
        exact ⟨rfl, rfl⟩
      · rintro ⟨name, hv⟩
        cases hv
        rw [← name]
        rfl
  simp only [one]

theorem bindAll_eq_ok_iff {vs : List Json} {ws : List Value} :
    bindAll pos vs = .ok ws ↔ Forall₂ (fun v w => bind 0 v = .ok w) vs ws := by
  induction vs generalizing pos ws with
  | nil =>
    rw [forall₂_nil_left_iff, bindAll]
    exact ⟨fun h => by cases h; rfl, fun h => by rw [h]⟩
  | cons v vs ih =>
    rw [forall₂_cons_left_iff, bindAll]
    constructor
    · intro h
      obtain ⟨w, first, h⟩ := of_bind_ok h
      obtain ⟨ws, hr, ⟨⟩⟩ := of_bind_ok h
      exact ⟨w, ws, bind_eq_ok_zero_iff.1 first, ih.1 hr, rfl⟩
    · rintro ⟨w, ws, first, hr, rfl⟩
      rw [bind_eq_ok_zero_iff.2 first, ih.2 hr]
      rfl

theorem named_of_bound {bound : List Value} (fit : fieldValues m data = .ok values)
    (hb : bindAll pos (values.map Prod.snd) = .ok bound) :
    Named m data ((values.map Prod.fst).zip bound) := by
  have he := fieldValues_eq_ok_iff.1 fit
  have hc := bindAll_eq_ok_iff.1 hb
  unfold Named
  clear fit hb
  generalize (m.fields.filter fun f => data.has f.1) = fs at he ⊢
  induction he generalizing bound with
  | nil =>
    exact .nil
  | cons first _ ih =>
    rw [map_cons, forall₂_cons_left_iff] at hc
    obtain ⟨w, rest, here, hc, rfl⟩ := hc
    exact .cons ⟨first.1, _, first.2, here⟩ (ih hc)

theorem exists_bound_iff (hkn : ∀ f ∈ m.fields, ∀ name, f.2 ≠ .other name)
    (data : Members) (pos : Nat) : (∃ values bound, fieldValues m data = .ok values ∧
      bindAll pos (values.map Prod.snd) = .ok bound) ↔ ¬ Unkeepable m data := by
  constructor
  · rintro ⟨values, bound, fit, bind⟩ ⟨f, hf, v, hv, lost⟩
    have hg : f ∈ m.fields.filter fun f => data.has f.1 := by
      simp [hf, has, hv]
    obtain ⟨e, -, -, w, fit, cell⟩ := exists_of_mem_left (named_of_bound fit bind) hg
    obtain ⟨a, kind⟩ := exists_affinityOf_iff.2 (hkn f hf)
    rw [hv, Option.getD_some] at fit
    rw [kept?_eq_some fit cell kind] at lost
    cases lost
  · intro hk
    have each : ∀ f ∈ m.fields.filter fun f => data.has f.1, ∃ w cell,
        coerce f.2 ((data.get? f.1).getD .null) = .ok w ∧ bind 0 w = .ok cell := by
      intro f hf
      obtain ⟨hf, has⟩ := mem_filter.1 hf
      obtain ⟨v, hv⟩ := Option.isSome_iff_exists.1 has
      rw [hv]
      exact exists_of_kept? fun lost => hk ⟨f, hf, v, hv, lost⟩
    choose! w cell fit bound using each
    refine ⟨(m.fields.filter fun f => data.has f.1).map fun f => (f.1, w f),
      (m.fields.filter fun f => data.has f.1).map cell, fieldValues_eq_ok_iff.2 ?_,
      bindAll_eq_ok_iff.2 ?_⟩
    · rw [forall₂_map_right_iff, forall₂_same]
      exact fun f hf => ⟨rfl, fit f hf⟩
    · rw [map_map, forall₂_map_right_iff, forall₂_map_left_iff, forall₂_same]
      exact bound

section Failing

variable (hkn : ∀ f ∈ m.fields, ∀ name, f.2 ≠ .other name) {e : Error}

include hkn

theorem unkeepable_of_fieldValues (hl : fieldValues m data = .error e) : Unkeepable m data := by
  by_contra hk
  obtain ⟨_, _, fit, -⟩ := (exists_bound_iff hkn data 1).2 hk
  cases hl.symm.trans fit

theorem unkeepable_of_bindAll {pos : Nat} {values : List (String × Json)}
    (fit : fieldValues m data = .ok values)
    (hl : bindAll pos (values.map Prod.snd) = .error e) : Unkeepable m data := by
  by_contra hk
  obtain ⟨_, _, hs, hb⟩ := (exists_bound_iff hkn data pos).2 hk
  cases fit.symm.trans hs
  cases hl.symm.trans hb

end Failing

/-! ## Columns and their values -/

theorem nodup_of_apart {ns : List String}
    (ha : ns.Pairwise fun a b => sameName a b = false) : ns.Nodup := by
  refine ha.imp fun {a b} ha hs => ?_
  rw [hs, sameName_refl] at ha
  cases ha

namespace WellNamed

variable (h : WellNamed m) {f g : String}

include h

theorem eq_of_sameName (hf : f ∈ m.fields.names) (hg : g ∈ m.fields.names)
    (hsa : sameName f g) : f = g := by
  by_contra other
  have hs : Std.Symm fun a b => sameName a b = false := ⟨fun a b ha => (sameName_comm b a).trans ha⟩
  have ha := (pairwise_cons.1 h.apart).2.forall hf hg other
  rw [hsa] at ha
  cases ha

theorem not_sameName_idColumn (hf : f ∈ m.fields.names) : sameName idColumn f = false :=
  (pairwise_cons.1 h.apart).1 f hf

theorem nodup_names : m.fields.names.Nodup := (nodup_cons.1 (nodup_of_apart h.apart)).2

end WellNamed

section Columns

variable (hde : Declarable m) (hnamed : Named m data named)

include hde hnamed

variable {e : String × Value}

theorem Named.mem_names (he : e ∈ named) :
    e.1 ∈ m.fields.names ∧ nameOf e.1 = e.1 := by
  obtain ⟨f, hf, name, -⟩ := exists_of_mem_right hnamed he
  have mem : f.1 ∈ m.fields.names := mem_map_of_mem (mem_of_mem_filter hf)
  rw [name]
  exact ⟨mem, hde.line f.1 mem⟩

theorem Named.givenId?_eq_none : givenId? named = none := by
  unfold givenId?
  rw [Option.map_eq_none_iff, find?_eq_none]
  intro e he
  obtain ⟨mem, hl⟩ := hnamed.mem_names hde (mem_reverse.1 he)
  rw [hl, hde.not_sameName_idColumn mem]
  simp

variable {f : String × FieldType} {c : Column} (hf : f ∈ m.fields) (hdec : Declares f c)

include hf hdec

theorem Named.given?_of_mem (he : e ∈ named)
    (hs : sameName c.name (nameOf e.1)) :
    given? m data f.1 = some (e.2.convert c.affinity).toJson := by
  obtain ⟨mem, hl⟩ := hnamed.mem_names hde he
  obtain ⟨g, hg, name, w, fit, hb⟩ := exists_of_mem_right hnamed he
  obtain ⟨hg, has⟩ := mem_filter.1 hg
  rw [hdec.name, hl] at hs
  have own : f.1 = e.1 := hde.eq_of_sameName (mem_map_of_mem hf) mem hs
  have ht := get?_of_mem hde.nodup_names hf
  have ho := get?_of_mem hde.nodup_names hg
  rw [← name, ← own, ht] at ho
  obtain ⟨v, hv⟩ := Option.isSome_iff_exists.1 has
  rw [hv, Option.getD_some, ← Option.some.inj ho] at fit
  rw [← name, ← own] at hv
  unfold given?
  rw [ht, hv]
  exact kept?_eq_some fit hb hdec.affinity

theorem Named.given?_of_not_mem (hm : ∀ e ∈ named, sameName c.name (nameOf e.1) = false) :
    given? m data f.1 = none := by
  cases hv : data.get? f.1 with
  | none =>
    unfold given?
    rw [hv]
    cases m.fields.get? f.1 <;> rfl
  | some v =>
    have hg : f ∈ m.fields.filter fun f => data.has f.1 := by
      simp [hf, has, hv]
    obtain ⟨e, he, name, -⟩ := exists_of_mem_left hnamed hg
    have other := hm e he
    rw [(hnamed.mem_names hde he).2, hdec.name, name, sameName_refl] at other
    cases other

theorem Named.find?_eq {values : List (String × Value)} (hs : ∀ e, e ∈ values ↔ e ∈ named) :
    (values.find? fun e => sameName c.name (nameOf e.1)).map
      (fun e => (e.2.convert c.affinity).toJson) = given? m data f.1 := by
  cases hfou : values.find? fun e => sameName c.name (nameOf e.1) with
  | some e =>
    have he := (hs e).1 (mem_of_find?_eq_some hfou)
    have name := find?_some hfou
    rw [hnamed.given?_of_mem hde hf hdec he name, Option.map_some]
  | none =>
    have hm : ∀ e ∈ named, sameName c.name (nameOf e.1) = false := by
      simpa [hs] using find?_eq_none.1 hfou
    rw [hnamed.given?_of_not_mem hde hf hdec hm, Option.map_none]

end Columns

def written (m : Model) (data : Members) (old : String → Json) (field : String) : Json :=
  (given? m data field).getD (old field)

section Rows

variable (hde : Declarable m) (houses : Houses m t) (hnamed : Named m data named)

include hde houses hnamed

theorem Named.newCells_eq : (newCells t named).map toJson =
    m.fields.names.map (written m data fun _ => .null) := by
  have own := (forall₂_and_left (p := (· ∈ m.fields)) _ _).2 ⟨fun _ hf => hf, houses.columns⟩
  rw [newCells, names, map_map, map_map]
  refine map_eq_map_of_forall₂ (own.imp fun f c => ?_)
  rintro ⟨hf, hdec⟩
  have hv := hnamed.find?_eq hde hf hdec fun e => (Iff.rfl : e ∈ named ↔ _)
  rw [Function.comp_apply, Function.comp_apply, written, ← hv]
  cases named.find? fun e => sameName c.name (nameOf e.1) <;> rfl

theorem Named.overwrite_eq {cells : List Value} {old : String → Json}
    (hb : cells.map toJson = m.fields.names.map old) :
    (overwrite t named cells).map toJson = m.fields.names.map (written m data old) := by
  have own := (forall₂_and_left (p := (· ∈ m.fields)) _ _).2 ⟨fun _ hf => hf, houses.columns⟩
  -- Column by column, along with the cells.
  suffices hg : ∀ fs cs, Forall₂ (fun f c => f ∈ m.fields ∧ Declares f c) fs cs →
      ∀ cells : List Value, cells.map toJson = (fs.map Prod.fst).map old →
        (overwrite { t with columns := cs } named cells).map toJson =
          (fs.map Prod.fst).map (written m data old) from hg _ _ own cells hb
  intro fs cs he
  induction he with
  | nil =>
    intro cells hb
    rfl
  | @cons f c fs cs first _ ih =>
    intro cells hb
    obtain ⟨cell, cells, rfl, here, hb⟩ := map_eq_cons_iff.1 hb
    have hv := hnamed.find?_eq hde first.1 first.2 fun e => mem_reverse
    have cell_eq : written m data old f.1 = ((named.reverse.find? fun e => sameName c.name (nameOf e.1)).map
          fun e => (e.2.convert c.affinity).toJson).getD cell.toJson := by
      rw [written, hv, here]
    rw [map_cons, map_cons, ← ih cells hb, cell_eq]
    refine congrArg (· :: _) ?_
    dsimp only
    cases named.reverse.find? fun e => sameName c.name (nameOf e.1) <;> rfl

end Rows

theorem Houses.names {m : Spec.Model} {t : Table} (houses : Houses m t) :
    t.columns.map Column.name = m.fields.names := by
  exact map_eq_map_of_forall₂ (houses.columns.imp fun f c => Declares.name)

theorem Houses.hasColumn {m : Model} {t : Table} (houses : Houses m t)
    (named : WellNamed m) {f : String} (hf : f ∈ m.fields.names) : t.hasColumn f := by
  obtain ⟨c, hc, rfl⟩ := mem_map.1 (houses.names ▸ hf)
  exact hasColumn_of_mem hc (named.line c.name hf).symm

/-! ## Rows in the order of their ids -/

section Place

variable {row r : Row} {rows : List Row}

theorem place_cons (row r : Row) (rows : List Row) : place row (r :: rows) =
    if r.id < row.id then r :: place row rows else row :: r :: rows := by
  by_cases hb : r.id < row.id <;> simp [place, hb]

theorem mem_place {q : Row} : q ∈ place row rows ↔ q = row ∨ q ∈ rows := by
  induction rows with
  | nil => simp [place]
  | cons r rows ih =>
    rw [place_cons]
    split
    · simp only [mem_cons, ih]
      tauto
    · simp

theorem pairwise_place (ho : rows.Pairwise fun r q => r.id < q.id)
    (new : ∀ r ∈ rows, r.id ≠ row.id) : (place row rows).Pairwise fun r q => r.id < q.id := by
  induction rows with
  | nil => simp [place]
  | cons r rows ih =>
    obtain ⟨first, ho⟩ := pairwise_cons.1 ho
    obtain ⟨here, new⟩ := forall_mem_cons.1 new
    rw [place_cons]
    split
    · refine pairwise_cons.2 ⟨fun q hq => ?_, ih ho new⟩
      rcases mem_place.1 hq with rfl | hq
      · assumption
      · exact first q hq
    · have hl : row.id < r.id := by omega
      refine pairwise_cons.2 ⟨forall_mem_cons.2 ⟨hl, fun q hq => ?_⟩, pairwise_cons.2 ⟨first, ho⟩⟩
      exact Int.lt_trans hl (first q hq)

theorem find?_place (new : ∀ r ∈ rows, r.id ≠ row.id) (id : Int) :
    (place row rows).find? (fun r => r.id == id) =
      if row.id = id then some row else rows.find? fun r => r.id == id := by
  induction rows with
  | nil => by_cases hs : row.id = id <;> simp [place, hs]
  | cons r rows ih =>
    obtain ⟨here, new⟩ := forall_mem_cons.1 new
    rw [place_cons]
    split
    · rw [find?_cons, ih new, find?_cons]
      by_cases hs : row.id = id
      · have other : (r.id == id) = false := by simpa [hs] using here
        simp [other]
      · simp [hs]
    · by_cases hs : row.id = id <;> simp [hs]

theorem find?_filter_ne (k id : Int) : (rows.filter fun r => r.id != k).find? (fun r => r.id == id) =
    if id = k then none else rows.find? fun r => r.id == id := by
  rw [find?_filter]
  split
  · rename_i hs
    simp [hs]
  · rename_i other
    congr 1
    funext r
    by_cases hfou : r.id = id <;> simp [hfou, other]

theorem topId_eq {t : Table} (ids : ∀ r ∈ t.rows, r.id ≤ t.lastId) : t.topId = t.lastId := by
  unfold Table.topId
  generalize t.rows = rows at ids
  induction rows with
  | nil => rfl
  | cons r rows ih =>
    obtain ⟨here, ids⟩ := forall_mem_cons.1 ids
    rw [foldl_cons, Int.max_eq_left here]
    exact ih ids

end Place

/-! ## Adding, changing and removing rows -/

section Operations

variable {s : Store} {id : Int} {values : List (String × Json)}

theorem unrelated_iff (fit : fieldValues m data = .ok values) : Unrelated m data ↔ values = [] := by
  have hea := fieldValues_eq_ok_iff.1 fit
  have he : values = [] ↔ (m.fields.filter fun f => data.has f.1) = [] := by
    rw [← length_eq_zero_iff, ← hea.length_eq, length_eq_zero_iff]
  rw [he, filter_eq_nil_iff, Unrelated, names, forall_mem_map]
  simp

variable (hde : Declarable m) (houses : Houses m t) (hfo : s.table? m.name = some t)

include hde houses

theorem find?_not_hasColumn (fit : fieldValues m data = .ok values) :
    (values.find? fun e => !t.hasColumn e.1) = none := by
  rw [find?_eq_none]
  intro e he
  obtain ⟨f, hf, name, -⟩ := exists_of_mem_right (fieldValues_eq_ok_iff.1 fit) he
  have mem : f.1 ∈ m.fields.names := mem_map_of_mem (mem_of_mem_filter hf)
  rw [name, houses.hasColumn hde.toWellNamed mem]
  simp

include hfo

theorem insert_eq_bound (fit : fieldValues m data = .ok values) (some : values ≠ []) : insert m data s = (do
      let bound ← attempt (bindAll 1 (values.map Prod.snd))
      let id ← attempt (newId t (givenId? ((values.map Prod.fst).zip bound)))
      let row : Row := { id, cells := newCells t ((values.map Prod.fst).zip bound) }
      modify (setTable { t with rows := place row t.rows, lastId := max t.lastId id })
      return t.object row : Action Members) s := by
  unfold insert
  rw [fit]
  cases values with
  | nil => exact absurd rfl some
  | cons first rest =>
    change (tableOf m >>= _ : Action Members) s = _
    rw [bind_of_ok (tableOf_eq_ok hfo)]
    rw [find?_not_hasColumn hde houses fit]

/-- A row is added if a field of it is given, the fields keep their values, and there is an id left.
Else nothing changes. -/
theorem insert_cases (ids : ∀ r ∈ t.rows, r.id ≤ t.lastId) :
    ((Unrelated m data ∨ Unkeepable m data ∨ maxId ≤ t.lastId) ∧ ∃ e, insert m data s = .error e s) ∨
    ¬ (Unrelated m data ∨ Unkeepable m data ∨ maxId ≤ t.lastId) ∧ ∃ row : Row, row.id = t.lastId + 1 ∧
        row.cells.map toJson = m.fields.names.map (written m data fun _ => .null) ∧
        insert m data s = .ok (t.object row)
          (setTable { t with rows := place row t.rows, lastId := max t.lastId row.id } s) := by
  cases fit : fieldValues m data with
  | error e =>
    have hl := unkeepable_of_fieldValues hde.known fit
    refine .inl ⟨.inr (.inl hl), e, ?_⟩
    unfold insert
    rw [fit]
    rfl
  | ok values =>
    by_cases he : values = []
    · refine .inl ⟨.inl ((unrelated_iff fit).2 he), .noFields, ?_⟩
      unfold insert
      rw [fit, he]
      rfl
    have hr : ¬ Unrelated m data := fun h => he ((unrelated_iff fit).1 h)
    rw [insert_eq_bound hde houses hfo fit he]
    cases hb : bindAll 1 (values.map Prod.snd) with
    | error e =>
      have hl := unkeepable_of_bindAll hde.known fit hb
      exact .inl ⟨.inr (.inl hl), e, rfl⟩
    | ok bound' =>
      have hk := (exists_bound_iff hde.known data 1).1 ⟨values, bound', fit, hb⟩
      have named := named_of_bound fit hb
      have new : newId t (givenId? ((values.map Prod.fst).zip bound')) =
          if t.lastId < maxId then .ok (t.lastId + 1) else .error .full := by
        rw [named.givenId?_eq_none hde, ← topId_eq ids]
        rfl
      by_cases left : t.lastId < maxId
      · refine .inr ⟨by simp [hr, hk, left],
          { id := t.lastId + 1, cells := newCells t ((values.map Prod.fst).zip bound') }, rfl,
          named.newCells_eq hde houses, ?_⟩
        change (attempt (newId t _) >>= _ : Action Members) s = _
        rw [new, if_pos left]
        rfl
      · refine .inl ⟨.inr (.inr (by omega)), .full, ?_⟩
        change (attempt (newId t _) >>= _ : Action Members) s = _
        rw [new, if_neg left]
        rfl

theorem update_eq_bound (fit : fieldValues m data = .ok values) (some : values ≠ []) :
    update m id data s = (do
      let bound ← attempt (bindAll 1 (values.map Prod.snd))
      let _ ← attempt (bind (values.length + 1) (.int id))
      (t.row? id).elim (return none) fun old => do
        let own ← attempt (changedId t id (givenId? ((values.map Prod.fst).zip bound)))
        let row : Row := { id := own, cells := overwrite t ((values.map Prod.fst).zip bound) old.cells }
        modify (setTable { t with rows := place row (t.rows.filter fun r => r.id != id) })
        get? m id : Action (Option Members)) s := by
  unfold update
  rw [fit]
  cases values with
  | nil => exact absurd rfl some
  | cons first rest =>
    change (tableOf m >>= _ : Action (Option Members)) s = _
    rw [bind_of_ok (tableOf_eq_ok hfo)]
    rw [find?_not_hasColumn hde houses fit]
    cases t.row? id <;> rfl

/-- A row is changed if the fields keep their values and rows can have its id. Else nothing
changes. -/
theorem update_cases (hr : ¬ Unrelated m data) (id : Int) :
    ((Unkeepable m data ∨ fits id = false) ∧ ∃ e, update m id data s = .error e s) ∨
    ¬ (Unkeepable m data ∨ fits id = false) ∧ (t.row? id = none ∧ update m id data s = .ok none s ∨
      ∃ old cs, t.row? id = some old ∧ (∀ row, old.cells.map toJson = m.fields.names.map row →
          cs.map toJson = m.fields.names.map (written m data row)) ∧
        update m id data s = get? m id
          (setTable { t with rows := place ⟨id, cs⟩ (t.rows.filter fun r => r.id != id) } s)) := by
  cases fit : fieldValues m data with
  | error e =>
    have lost := unkeepable_of_fieldValues hde.known fit
    refine .inl ⟨.inl lost, e, ?_⟩
    unfold update
    rw [fit]
    rfl
  | ok values =>
    have hn : values ≠ [] := fun he => hr ((unrelated_iff fit).2 he)
    rw [update_eq_bound hde houses hfo fit hn]
    cases hb : bindAll 1 (values.map Prod.snd) with
    | error e =>
      have lost := unkeepable_of_bindAll hde.known fit hb
      exact .inl ⟨.inl lost, e, rfl⟩
    | ok bound' =>
      have hk := (exists_bound_iff hde.known data 1).1 ⟨values, bound', fit, hb⟩
      have named := named_of_bound fit hb
      rw [bind_int]
      cases fits : fits id with
      | false => exact .inl ⟨.inr rfl, .tooLarge, rfl⟩
      | true =>
        refine .inr ⟨by simp [hk], ?_⟩
        cases here : t.row? id with
        | none => exact .inl ⟨rfl, rfl⟩
        | some old =>
          refine .inr ⟨old, overwrite t ((values.map Prod.fst).zip bound') old.cells, rfl,
            fun row hbe => named.overwrite_eq hde houses hbe, ?_⟩
          change (attempt (changedId t id _) >>= _ : Action (Option Members)) s = _
          rw [named.givenId?_eq_none hde]
          rfl

omit hde houses in
theorem delete_cases (id : Int) : (fits id = false ∧ ∃ e, delete m id s = .error e s) ∨
    fits id ∧ delete m id s = .ok (t.row? id).isSome
      (setTable { t with rows := t.rows.filter fun r => r.id != id } s) := by
  unfold delete
  rw [bind_of_ok (tableOf_eq_ok hfo), bind_int]
  cases fits id with
  | false => exact .inl ⟨rfl, .tooLarge, rfl⟩
  | true => exact .inr ⟨rfl, rfl⟩

end Operations

theorem update_of_unrelated (hu : Unrelated m data) (id : Int) :
    update m id data = get? m id ∧ ∀ old, written m data old = old := by
  have none : (m.fields.filter fun f => data.has f.1) = [] := by
    rw [filter_eq_nil_iff]
    intro f hf
    simp [hu f.1 (mem_map_of_mem hf)]
  constructor
  · have fit : fieldValues m data = .ok [] := by
      rw [fieldValues_eq_ok_iff, none]
      exact .nil
    unfold update
    rw [fit]
    rfl
  · intro old
    funext f
    unfold written given?
    by_cases hd : f ∈ m.fields.names
    · have hm : data.get? f = Option.none := by
        simpa [has] using hu f hd
      rw [hm]
      cases m.fields.get? f <;> rfl
    · rw [get?_eq_none_of_not_mem hd]
      rfl

end Appwright.Store
