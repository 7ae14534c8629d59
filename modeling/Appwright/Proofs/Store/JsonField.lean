import Appwright.Proofs.Json.Reading
import Appwright.Proofs.Store.Migration
import Appwright.Proofs.Store.Writing

/-!
# JSON fields

A JSON field keeps a value as its text, and a string as it is. When a row is read, a text that is JSON
becomes the value that it denotes (`readJson`). So a value that is no string comes back as it was
written, and a string does if and only if it is no JSON text.

This holds for rows that are added and for rows that are changed, in every table that has a text
column for the field (`KeepsText`), whatever other columns it has.
-/

namespace Appwright.Store

open List Json Entries

variable {m : Spec.Model} {data row : Members} {named : List (String × Value)} {t : Table}
  {s s' : Store} {f : String} {v : Json}

/-! ## Values -/

/-- A value comes back from its own text, unless it is a string that is the text of another value. -/
theorem readJson_eq_self_iff : readJson v = v ↔ ∀ text w, v = .str text → read text ≠ .ok w := by
  constructor
  · rintro same text w rfl read
    rw [readJson, read] at same
    dsimp only at same
    rw [same] at read
    exact ne_of_read_str read rfl
  · intro hp
    unfold readJson
    split
    next text =>
      split
      next w read => exact absurd read (hp text w rfl)
      next => rfl
    next => rfl

theorem coerce_json (some : v ≠ .null) (hp : ∀ text, v ≠ .str text) : coerce .json v =
    if v.isWritable then .ok (.str (encode v)) else .error .noText := by
  cases v with
  | null => exact absurd rfl some
  | str text => exact absurd rfl (hp text)
  | _ => rfl

theorem readJson_kept (hpr : v.Proper) {w : Json} {cell : Value} (fit : coerce .json v = .ok w)
    (hb : bind 0 w = .ok cell) : readJson (cell.convert .text).toJson = readJson v := by
  by_cases none : v = .null
  · subst none
    cases fit
    cases hb
    rfl
  by_cases hs : ∃ text, v = .str text
  · obtain ⟨text, rfl⟩ := hs
    cases fit
    cases hb
    rfl
  have hp : ∀ text, v ≠ .str text := fun text same => hs ⟨text, same⟩
  rw [coerce_json none hp] at fit
  split at fit
  next hw =>
    cases fit
    cases hb
    have back : readJson (.str (encode v)) = v := by
      rw [readJson, read_encode hpr hw]
    exact back.trans (readJson_eq_self_iff.2 fun text _ same => absurd same (hp text)).symm
  next => cases fit

/-! ## Tables -/

def Stored (m : Spec.Model) (s : Store) (row : Members) : Prop :=
  ∃ t, s.table? m.name = some t ∧ ∃ r ∈ t.rows, t.object r = row

structure KeepsText (m : Spec.Model) (t : Table) (f : String) : Prop where
  names : m.fields.names.Nodup
  type : m.fields.get? f = some .json
  line : nameOf f = f
  column : ⟨f, .text⟩ ∈ t.columns
  apart : (idColumn :: t.columns.map Column.name).Pairwise fun a b => sameName a b = false
  cells : ∀ r ∈ t.rows, r.cells.length = t.columns.length

theorem Houses.keepsText (houses : Houses m t) (hd : Declarable m)
    (hc : ∀ r ∈ t.rows, r.cells.length = t.columns.length) (ht : m.fields.get? f = some .json) :
    KeepsText m t f where
  names := hd.nodup_names
  type := ht
  line := hd.line f (mem_map_of_mem (mem_of_get? ht))
  column := by
    obtain ⟨⟨name, affinity⟩, mem, hde⟩ := exists_of_mem_left houses.columns (mem_of_get? ht)
    obtain rfl : name = f := hde.name
    cases hde.affinity
    exact mem
  apart := by
    rw [houses.names]
    exact hd.apart
  cells := hc

/-! ## Columns -/

namespace KeepsText

variable (hk : KeepsText m t f)

include hk

theorem get?_object {r : Row} (hl : r.cells.length = t.columns.length) {cell : Value}
    (here : (⟨f, .text⟩, cell) ∈ t.columns.zip r.cells) : (t.object r).get? f = some cell.toJson := by
  have names : (t.object r).names = idColumn :: t.columns.map Column.name := by
    have hc : (t.columns.zip r.cells).map (Column.name ∘ Prod.fst) = t.columns.map Column.name := by
      rw [← map_map, map_fst_zip hl.ge]
    rw [← hc, Table.object, Entries.names, List.map_cons, List.map_map]
    rfl
  have hd : (t.object r).names.Nodup := by
    rw [names]
    exact nodup_of_apart hk.apart
  exact get?_of_mem hd (e := (f, cell.toJson)) (mem_cons_of_mem _ (mem_map.2 ⟨_, here, rfl⟩))

theorem get?_normalize (row : Members) :
    (normalize m row).get? f = some (readJson ((row.get? f).getD .null)) := by
  have hp : normalize m row = Entries.update [(idColumn, (row.get? idColumn).getD .null)]
      (m.fields.map fun g => (g.1, readField g.2 ((row.get? g.1).getD .null))) := by
    rw [normalize, Entries.update, List.foldl_map]
  have mem := mem_map_of_mem (f := fun g : String × Spec.FieldType =>
    (g.1, readField g.2 ((row.get? g.1).getD .null))) (mem_of_get? hk.type)
  rw [hp]
  refine get?_update ?_ mem _
  rw [map_map]
  exact hk.names

theorem exists_find? (hnamed : Named m data named) (hgi : data.get? f = some v)
    (hal : ∀ g ∈ m.fields.names, data.has g → sameName f (nameOf g) → g = f)
    (hpr : v.Proper) {vs : List (String × Value)} (hs : ∀ e, e ∈ vs ↔ e ∈ named) :
    ∃ e, (vs.find? fun e => sameName f (nameOf e.1)) = some e ∧
      readJson (e.2.convert .text).toJson = readJson v := by
  have hf : (f, Spec.FieldType.json) ∈ m.fields.filter fun g => data.has g.1 := by
    rw [mem_filter, has, hgi]
    exact ⟨mem_of_get? hk.type, rfl⟩
  obtain ⟨own, mem, name, -⟩ := exists_of_mem_left hnamed hf
  have some : (vs.find? fun e => sameName f (nameOf e.1)).isSome := by
    rw [find?_isSome]
    refine ⟨own, (hs own).2 mem, ?_⟩
    rw [name, hk.line, sameName_refl]
  obtain ⟨e, hfo⟩ := Option.isSome_iff_exists.1 some
  refine ⟨e, hfo, ?_⟩
  obtain ⟨g, hg, name, w, fit, hb⟩ := exists_of_mem_right hnamed ((hs e).1 (mem_of_find?_eq_some hfo))
  obtain ⟨hg, has⟩ := mem_filter.1 hg
  have hc := find?_some hfo
  rw [name] at hc
  have hf : g.1 = f := hal g.1 (mem_map_of_mem hg) has hc
  have ht := get?_of_mem hk.names hg
  rw [hf, hk.type] at ht
  rw [hf, hgi, Option.getD_some, ← Option.some.inj ht] at fit
  exact readJson_kept hpr fit hb

end KeepsText

/-! ## Rows -/

theorem insert_eq_ok (run : insert m data s = .ok row s') :
    ∃ t named id, s.table? m.name = some t ∧ Named m data named ∧
      row = t.object ⟨id, newCells t named⟩ ∧ s' = setTable { t with
        rows := place ⟨id, newCells t named⟩ t.rows, lastId := max t.lastId id } s := by
  obtain ⟨vs, fit, run⟩ := attempt_bind_eq_ok_iff.1 run
  split at run
  · cases run
  obtain ⟨t, _, hfo, run⟩ := bind_eq_ok run
  cases (still_tableOf m).eq_of_ok hfo
  split at run
  · cases run
  obtain ⟨bound, hb, run⟩ := attempt_bind_eq_ok_iff.1 run
  obtain ⟨id, -, run⟩ := attempt_bind_eq_ok_iff.1 run
  cases run
  exact ⟨t, _, id, table?_of_tableOf hfo, named_of_bound fit hb, rfl, rfl⟩

theorem update_eq_ok {id : Int} (hr : ¬ Unrelated m data) (run : update m id data s = .ok (some row) s') :
    ∃ t old named own, s.table? m.name = some t ∧ t.row? id = some old ∧ Named m data named ∧
      get? m id (setTable { t with
        rows := place ⟨own, overwrite t named old.cells⟩ (t.rows.filter fun r => r.id != id) } s) =
          .ok (some row) s' := by
  obtain ⟨vs, fit, run⟩ := attempt_bind_eq_ok_iff.1 run
  split at run
  next he => exact absurd ((unrelated_iff fit).2 (isEmpty_iff.1 he)) hr
  obtain ⟨t, _, hfo, run⟩ := bind_eq_ok run
  cases (still_tableOf m).eq_of_ok hfo
  cases hm : vs.find? fun e => !t.hasColumn e.1 with
  | some e =>
    rw [hm] at run
    cases run
  | none =>
    rw [hm] at run
    obtain ⟨bound, hb, run⟩ := attempt_bind_eq_ok_iff.1 run
    obtain ⟨_, -, run⟩ := attempt_bind_eq_ok_iff.1 run
    cases here : t.row? id with
    | none =>
      rw [here] at run
      cases run
    | some old =>
      rw [here] at run
      obtain ⟨own, -, run⟩ := attempt_bind_eq_ok_iff.1 run
      exact ⟨t, old, _, own, table?_of_tableOf hfo, here, named_of_bound fit hb, run⟩

theorem exists_of_get? {id : Int} (hfo : s.table? m.name = some t) (run : get? m id s = .ok (some row) s') :
    s' = s ∧ ∃ r ∈ t.rows, r.id = id ∧ t.object r = row := by
  have hl := get?_eq_ok run
  rw [rowAt?, hfo] at hl
  obtain ⟨r, here, ho⟩ := Option.map_eq_some_iff.1 hl.symm
  have own := find?_some here
  exact ⟨(still_get? m id).eq_of_ok run, r, mem_of_find?_eq_some here, by simpa using own, ho⟩

section Returned

variable (hk : KeepsText m t f) (hfo : s.table? m.name = some t)
  (hgi : data.get? f = some v)
  (hal : ∀ g ∈ m.fields.names, data.has g = true → sameName f (nameOf g) = true → g = f)
  (hpr : v.Proper)

include hk

theorem KeepsText.get?_normalize_object {r : Row} (hl : r.cells.length = t.columns.length)
    {cell : Value} (here : (⟨f, .text⟩, cell) ∈ t.columns.zip r.cells)
    (hv : readJson cell.toJson = readJson v) :
    (normalize m (t.object r)).get? f = some (readJson v) := by
  rw [hk.get?_normalize, hk.get?_object hl here, Option.getD_some, hv]

include hfo hgi hal hpr

theorem KeepsText.insert_returned {row : Members} (run : insert m data s = .ok row s') :
    Stored m s' row ∧ (normalize m row).get? f = some (readJson v) := by
  obtain ⟨u, named, id, hf', hnamed, rfl, rfl⟩ := insert_eq_ok run
  cases hfo.symm.trans hf'
  constructor
  · exact ⟨_, table?_setTable hfo _ rfl, _, mem_place.2 (.inl rfl), rfl⟩
  · obtain ⟨e, first, hv⟩ := hk.exists_find? hnamed hgi hal hpr fun e => Iff.rfl
    refine hk.get?_normalize_object (length_map _) ?_ hv
    rw [newCells, ← map_prod_left_eq_zip]
    refine mem_map.2 ⟨_, hk.column, ?_⟩
    rw [first]

theorem KeepsText.update_returned {id : Int} {row : Members}
    (run : update m id data s = .ok (some row) s') :
    Stored m s' row ∧ (normalize m row).get? f = some (readJson v) := by
  have hr : ¬ Unrelated m data := by
    intro hu
    have ha := hu f (mem_map_of_mem (mem_of_get? hk.type))
    rw [has, hgi] at ha
    cases ha
  obtain ⟨u, old, named, own, hf', here, hnamed, hlo⟩ := update_eq_ok hr run
  cases hfo.symm.trans hf'
  have hc := table?_setTable hfo { t with
    rows := place ⟨own, overwrite t named old.cells⟩ (t.rows.filter fun r => r.id != id) } rfl
  obtain ⟨rfl, r, mem, hs, ho⟩ := exists_of_get? hc hlo
  refine ⟨⟨_, hc, r, mem, ho⟩, ?_⟩
  -- The other rows have other ids.
  have new : r = ⟨own, overwrite t named old.cells⟩ := by
    rcases mem_place.1 mem with new | hot
    · exact new
    · have := (mem_filter.1 hot).2
      simp [hs] at this
  have hl := hk.cells old (mem_of_find?_eq_some here)
  obtain ⟨e, hla, hv⟩ := hk.exists_find? hnamed hgi hal hpr fun e => mem_reverse
  have hco := map_fst_zip hl.ge
  rw [← ho, new]
  refine hk.get?_normalize_object ?_ ?_ hv
  · rw [overwrite, length_map, length_zip, hl, Nat.min_self]
  · have hcol := hk.column
    rw [← hco] at hcol
    obtain ⟨⟨c, cell⟩, mem, rfl⟩ := mem_map.1 hcol
    rw [overwrite]
    nth_rewrite 1 [← hco]
    rw [zip_map']
    refine mem_map.2 ⟨_, mem, ?_⟩
    dsimp only
    rw [hla]

end Returned

/-- A JSON field gives back what was written, by adding a row or by changing one: a string that is a
JSON text comes back as the value that it denotes, and all else as it was. -/
theorem json_field_returned (keeps : KeepsText m t f) (found : s.table? m.name = some t)
    (given : data.get? f = some v)
    (alone : ∀ g ∈ m.fields.names, data.has g = true → sameName f (nameOf g) = true → g = f)
    (proper : v.Proper) :
    (∀ row s', insert m data s = .ok row s' →
      Stored m s' row ∧ (normalize m row).get? f = some (readJson v)) ∧
    (∀ id row s', update m id data s = .ok (some row) s' →
      Stored m s' row ∧ (normalize m row).get? f = some (readJson v)) ∧
    (readJson v = v ↔ ∀ text w, v = .str text → Json.read text ≠ .ok w) :=
  ⟨fun _ _ run => keeps.insert_returned found given alone proper run,
    fun _ _ _ run => keeps.update_returned found given alone proper run, readJson_eq_self_iff⟩

/-! ## Parcels -/

def parcel : Spec.Model where
  name := "Parcel"
  fields := [("data", .json)]

def parcelTable : Table where
  name := "Parcel"
  columns := [⟨"data", .text⟩]
  rows := []
  lastId := 0

def parcels : Store := { tables := [parcelTable] }

theorem houses_parcel : Houses parcel parcelTable := ⟨by decide, .cons ⟨rfl, rfl⟩ .nil⟩

theorem declarable_parcel : Declarable parcel := by
  refine ⟨⟨?_, ?_, ?_, by decide, ?_, by decide⟩, by decide, by decide, ?_⟩
  · decide +kernel
  · decide +kernel
  · decide +kernel
  · decide +kernel
  · rintro f hf name
    rw [mem_singleton.1 hf]
    exact Spec.FieldType.noConfusion

theorem keepsText_parcel : KeepsText parcel parcelTable "data" :=
  houses_parcel.keepsText declarable_parcel nofun rfl

def takes (v : Json) : Bool :=
  match insert parcel [("data", v)] parcels with
  | .ok _ _ => true
  | .error _ _ => false

theorem exists_of_takes {v : Json} (h : takes v) :
    ∃ row s', insert parcel [("data", v)] parcels = .ok row s' := by
  unfold takes at h
  split at h
  next row s' run => exact ⟨row, s', run⟩
  next => cases h

theorem table?_parcels : parcels.table? parcel.name = some parcelTable := rfl

theorem get?_parcel (v : Json) : Entries.get? "data" [("data", v)] = some v := rfl

theorem alone_parcel (v : Json) : ∀ g ∈ parcel.fields.names, has g [("data", v)] →
    sameName "data" (nameOf g) → g = "data" :=
  fun _ hg _ _ => mem_singleton.1 hg

def tagged : Json :=
  .obj [("tags", .arr [.str "1", .null]), ("n", .int 1)]

theorem proper_tagged : tagged.Proper := by
  refine .obj (by decide) (forall_mem_cons.2 ⟨?_, forall_mem_singleton.2 (.int 1)⟩)
  exact .arr (forall_mem_cons.2 ⟨.str "1", forall_mem_singleton.2 .null⟩)

/-- A parcel gives its data back. -/
theorem parcel_returned : ∃ row s', insert parcel [("data", tagged)] parcels = .ok row s' ∧
    (normalize parcel row).get? "data" = some tagged := by
  obtain ⟨row, s', run⟩ := exists_of_takes (show takes tagged = true by decide +kernel)
  obtain ⟨added, -, same⟩ := json_field_returned keepsText_parcel table?_parcels (get?_parcel tagged)
    (alone_parcel tagged) proper_tagged
  have value := (added row s' run).2
  rw [same.mpr (by rintro text w ⟨⟩)] at value
  exact ⟨row, s', run, value⟩

/-- A string that is a JSON text does not come back. -/
theorem parcel_text_becomes_number : ∃ row s', insert parcel [("data", .str "1")] parcels = .ok row s' ∧
    (normalize parcel row).get? "data" = some (.int 1) := by
  obtain ⟨row, s', run⟩ := exists_of_takes (show takes (.str "1") = true by decide +kernel)
  have value := (keepsText_parcel.insert_returned table?_parcels (get?_parcel _) (alone_parcel _)
    (.str "1") run).2
  have text : Json.encode (.int 1) = "1" := by decide +kernel
  have read := Json.read_encode (.int 1) (by decide +kernel)
  rw [text] at read
  rw [readJson, read] at value
  exact ⟨row, s', run, value⟩

end Appwright.Store
