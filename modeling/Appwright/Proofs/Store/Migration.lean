import Appwright.Proofs.Store.Schema
import Mathlib.Data.List.Pairwise

/-!
# Tables that are widened

Models are given to a store that has tables already, from models of any earlier time. A table may get
further columns, empty in all its rows, and new tables may follow those that are there (`Migrates`);
one model does that (`migrates_ensureTable`), so many do. Nothing is lost by it, and every field has
its column afterwards (`Additive`).

Giving the same models again should find nothing to do. It does if and only if every field stands
among the columns letter by letter (`ensure_again_iff`): a field that was added under a name without
the line feed at its end is not found again, and cannot be added again.
-/

namespace Appwright.Store

open List Spec Table Function

variable {s s' s'' : Store} {m : Model} {t t' : Table} {models ms' : List Model}

/-! ## Widened tables -/

def Table.widened (added : List Column) (t : Table) : Table :=
  { t with
    columns := t.columns ++ added
    rows := t.rows.map fun r => { r with cells := r.cells ++ added.map fun _ => .null } }

@[simp] theorem Table.widened_nil (t : Table) : t.widened [] = t := by
  simp [widened]

variable (added : List Column) {name f : String} {c : Column} {cs : List Column}

@[simp] theorem Table.widened_widened (more : List Column) (t : Table) :
    (t.widened added).widened more = t.widened (added ++ more) := by
  simp [widened]

@[simp] theorem Table.name_widened (t : Table) : (t.widened added).name = t.name := rfl

@[simp] theorem Table.columns_widened (t : Table) : (t.widened added).columns = t.columns ++ added := rfl

/-- What a store always is: no two tables have one name, no two rows of a table have one id, and a
row has a cell for each column. -/
structure Sound (s : Store) : Prop where
  apart : s.tables.Pairwise fun t u => sameName t.name u.name = false
  ids : ∀ t ∈ s.tables, (t.rows.map Row.id).Nodup
  cells : ∀ t ∈ s.tables, ∀ r ∈ t.rows, r.cells.length = t.columns.length

theorem objects_widened (hc : ∀ r ∈ t.rows, r.cells.length = t.columns.length)
    (added : List Column) : (t.widened added).rows.map (t.widened added).object =
      t.rows.map fun r => t.object r ++ added.map fun c => (c.name, .null) := by
  unfold widened
  rw [map_map]
  refine map_congr_left fun r hr => ?_
  have hn : ((added.zip (added.map fun _ => Value.null)).map fun e : Column × Value =>
      (e.1.name, e.2.toJson)) = added.map fun c => (c.name, .null) := by
    induction added with
    | nil => rfl
    | cons c cs ih => exact congrArg _ ih
  simp only [comp_apply, object, cons_append]
  rw [zip_append (hc r hr).symm, map_append, hn]

/-! ## One model -/

def Asked (models : List Model) (name : String) (c : Column) : Prop :=
  ∃ m ∈ models, sameName name (nameOf m.name) = true ∧
    ∃ f ∈ m.fields, Declares (nameOf f.1, f.2) c

structure Migrates (models : List Model) (s s' : Store) (extra : Table → List Column)
    (made : List Table) : Prop where
  tables : s'.tables = s.tables.map (fun t => t.widened (extra t)) ++ made
  extra : ∀ t ∈ s.tables, ∀ c ∈ extra t, Asked models t.name c
  made : ∀ t ∈ made, ∃ m ∈ models, t.name = nameOf m.name ∧ t.rows = [] ∧
    ∀ c ∈ t.columns, Asked models t.name c

/-- A field has a column: one with its letters, or the one that stands for it in a statement. -/
def Equipped (t : Table) (field : String) : Prop :=
  field ∈ idColumn :: t.columns.map Column.name ∨ nameOf field ∈ t.columns.map Column.name

def Legible (m : Model) : Prop :=
  Text.isIdentLine m.name = true ∧ ∃ cs, columnsOf m = .ok cs ∧
    ∀ t, declare (fun _ t => .ok t) t false cs = .ok t

def widen (name : String) (added : List Column) (s : Store) : Store where
  tables := s.tables.map fun u => if sameName u.name name then u.widened added else u

theorem sameName_congr {a b : String} (hs : sameName a b) (c : String) :
    sameName a c = sameName b c := by
  rw [Bool.eq_iff_iff, sameName_iff, sameName_iff, sameName_iff.1 hs]

theorem sameName_of_table? (hfo : s.table? name = some t) :
    sameName t.name (nameOf name) :=
  find?_some (p := fun t : Table => sameName t.name (nameOf name)) hfo

section Found

variable {name : String} (hfo : s.table? name = some t)

include hfo

theorem Sound.eq_of_sameName (hs : Sound s) {u : Table} (mem : u ∈ s.tables)
    (hsa : sameName u.name (nameOf name)) : u = t := by
  have : Std.Symm fun t u : Table => sameName t.name u.name = false :=
    ⟨fun t u ha => (sameName_comm u.name t.name).trans ha⟩
  by_contra ne
  have ha := hs.apart.forall mem (mem_of_find?_eq_some hfo) ne
  rw [sameName_congr hsa, sameName_comm, sameName_of_table? hfo] at ha
  cases ha

theorem setTable_widened (hs : Sound s) (added : List Column) :
    s.setTable (t.widened added) = s.widen (nameOf name) added := by
  unfold setTable widen
  congr 1
  refine map_congr_left fun u mem => ?_
  have ho : sameName u.name (t.widened added).name = sameName u.name (nameOf name) := by
    rw [name_widened, sameName_comm, sameName_comm u.name, sameName_congr (sameName_of_table? hfo)]
  rw [ho]
  split
  next hsa => rw [hs.eq_of_sameName hfo mem hsa]
  next => rfl

theorem table?_setTable (t' : Table) (hs : t'.name = t.name) : (setTable t' s).table? name = some t' := by
  have hn : ((fun u : Table => sameName u.name (nameOf name)) ∘ fun u =>
      if sameName u.name t'.name then t' else u) = fun u => sameName u.name (nameOf name) := by
    funext u
    simp only [comp_apply]
    split
    next he => rw [sameName_congr he]
    next => rfl
  unfold table? at hfo ⊢
  rw [setTable, find?_map, hn, hfo, Option.map_some, hs, sameName_refl, if_pos rfl]

theorem table?_widen (hs : Sound s) (added : List Column) :
    (s.widen (nameOf name) added).table? name = some (t.widened added) := by
  rw [← setTable_widened hfo hs]
  exact table?_setTable hfo _ rfl

end Found

@[simp] theorem widen_nil (name : String) (s : Store) : s.widen name [] = s := by
  simp [widen]

theorem widen_widen (name : String) (added more : List Column) (s : Store) :
    (s.widen name added).widen name more = s.widen name (added ++ more) := by
  unfold widen
  rw [map_map]
  congr 1
  refine map_congr_left fun u _ => ?_
  simp only [comp_apply]
  split
  next hs => rw [name_widened, if_pos hs, widened_widened]
  next => rfl

theorem Sound.widen (hs : Sound s) (name : String) (added : List Column) : Sound (s.widen name added) := by
  have hn (u : Table) : (if sameName u.name name then u.widened added else u).name = u.name := by
    split <;> rfl
  constructor
  · refine pairwise_map.2 (hs.apart.imp fun ha => ?_)
    rw [hn, hn, ha]
  · unfold Store.widen
    rw [forall_mem_map]
    intro u mem
    split
    next =>
      rw [widened, map_map]
      exact hs.ids u mem
    next => exact hs.ids u mem
  · unfold Store.widen
    rw [forall_mem_map]
    intro u mem
    split
    next =>
      refine forall_mem_map.2 fun r hr => ?_
      simpa using hs.cells u mem r hr
    next => exact hs.cells u mem

theorem Sound.append (hs : Sound s) (hf : Fresh m t) (ha : s.table? m.name = none) :
    Sound { tables := s.tables ++ [t] } := by
  constructor
  · refine pairwise_append.2 ⟨hs.apart, pairwise_singleton _ _, fun u hu v hv => ?_⟩
    cases mem_singleton.1 hv
    rw [hf.name]
    simpa using find?_eq_none.1 ha u hu
  · refine forall_mem_append.2 ⟨hs.ids, forall_mem_singleton.2 ?_⟩
    rw [hf.rows]
    exact nodup_nil
  · refine forall_mem_append.2 ⟨hs.cells, forall_mem_singleton.2 ?_⟩
    rw [hf.rows]
    simp

theorem eq_widened_of_addColumn (h : addColumn c t = .ok t') : t' = t.widened [c] := by
  unfold addColumn at h
  split at h
  · cases h
  · cases h
    rfl

def missing (existing : List String) (pairs : List (String × Column)) : List Column :=
  (pairs.filter fun e => !existing.contains e.1).map Prod.snd

theorem eq_widen_of_addMissing {old : List String}
    {ps : List (String × Column)} (hs : Sound s) (hfo : s.table? name = some t)
    (h : addMissing name old ps s = .ok () s') :
    s' = s.widen (nameOf name) (missing old ps) := by
  induction ps generalizing s t with
  | nil =>
    cases h
    rw [missing, filter_nil, map_nil, widen_nil]
  | cons e ps ih =>
    obtain ⟨fd, c⟩ := e
    unfold addMissing at h
    by_cases hk : old.contains fd
    · rw [if_pos hk] at h
      rw [ih hs hfo h, missing, missing, filter_cons_of_neg (by simpa using hk)]
    · rw [if_neg hk, get_bind, hfo] at h
      dsimp only at h
      split at h
      · cases h
      · obtain ⟨wider, added, h⟩ := attempt_bind_eq_ok_iff.1 h
        rw [eq_widened_of_addColumn added] at h
        obtain ⟨_, s₁, hc, hr⟩ := bind_eq_ok h
        cases hc
        rw [setTable_widened hfo hs] at hr
        rw [ih (hs.widen _ _) (table?_widen hfo hs [c]) hr, widen_widen, missing, missing,
          filter_cons_of_pos (by simpa using hk)]
        rfl

/-! ### Reading the statement for a table -/

theorem declare_of_declare {ruled : Bool} (h : declare (fun _ t => .ok t) t ruled cs = .ok t')
    (u : Table) : declare (fun _ t => .ok t) u ruled cs = .ok u := by
  induction cs generalizing ruled with
  | nil => rfl
  | cons c cs ih =>
    unfold declare at h ⊢
    split at h
    · cases h
    next hp =>
      split at h
      next hr => rw [if_pos hr]; exact ih h
      next hr => rw [if_neg hr]; exact ih h

theorem declare_of_words (hw : ∀ c ∈ cs, isKeywordOfTable c.name = false) :
    declare (fun _ t => .ok t) t false cs = .ok t := by
  induction cs with
  | nil => rfl
  | cons c cs ih =>
    obtain ⟨here, hw⟩ := forall_mem_cons.1 hw
    obtain ⟨hk, ho, hr⟩ := isKeywordOfTable_eq_false_iff.1 here
    unfold declare fault?
    rw [hk, ho, hr]
    exact ih hw

theorem of_mem_zip_columnsOf (hc : columnsOf m = .ok cs) (mem : (f, c) ∈ m.fields.names.zip cs) :
    ∃ type, (f, type) ∈ m.fields ∧ Declares (nameOf f, type) c := by
  have he := (columnsOf_eq_ok_iff.1 hc).2
  rw [Entries.names, zip_map_left] at mem
  obtain ⟨⟨⟨g, type⟩, d⟩, hb, hs⟩ := mem_map.1 mem
  cases hs
  exact ⟨type, (of_mem_zip hb).1, (forall₂_iff_zip.1 he).2 hb⟩

theorem exists_mem_zip_columnsOf (hc : columnsOf m = .ok cs) (mem : f ∈ m.fields.names) :
    ∃ c, (f, c) ∈ m.fields.names.zip cs := by
  rw [← map_fst_zip_columnsOf hc] at mem
  obtain ⟨⟨_, c⟩, hb, rfl⟩ := mem_map.1 mem
  exact ⟨c, hb⟩

/-! ### What a model does -/

theorem Equipped.widened {fd : String} (he : Equipped t fd) (added : List Column) :
    Equipped (t.widened added) fd := by
  unfold Equipped at he ⊢
  rw [columns_widened, map_append, ← cons_append]
  exact he.imp (mem_append_left _) (mem_append_left _)

theorem ensureTable_found (hs : Sound s) (hfo : s.table? m.name = some t)
    (h : ensureTable m s = .ok () s') : Legible m ∧ ∃ cs, columnsOf m = .ok cs ∧
      s' = s.widen (nameOf m.name)
        (missing (idColumn :: t.columns.map Column.name) (m.fields.names.zip cs)) := by
  unfold ensureTable at h
  simp only [attempt_bind_eq_ok_iff, get_bind, hfo, checkIdentifier_eq_ok_iff] at h
  obtain ⟨_, hi, cs, hc, _, hr, run⟩ := h
  exact ⟨⟨hi, cs, hc, declare_of_declare hr⟩, cs, hc, eq_widen_of_addMissing hs hfo run⟩

theorem Declarable.legible (hd : Declarable m) : Legible m := by
  obtain ⟨cs, hc⟩ := hd.exists_columns
  refine ⟨hd.ident, cs, hc, fun t => declare_of_words ?_⟩
  have hw := hd.words
  rw [← names_eq_of_line hc hd.line, forall_mem_map] at hw
  exact hw

/-- One model: the store stays sound, the model's table is there and has a column for each field,
and nothing else happens but that columns and tables are added. -/
theorem ensureTable_eq_ok (hs : Sound s) (h : ensureTable m s = .ok () s') :
    Sound s' ∧ Legible m ∧ (∃ extra made, Migrates [m] s s' extra made) ∧
      ∃ t, s'.table? m.name = some t ∧ ∀ f ∈ m.fields.names, Equipped t f := by
  cases hfo : s.table? m.name with
  | some t =>
    obtain ⟨hl, cs, hco, rfl⟩ := ensureTable_found hs hfo h
    set added := missing (idColumn :: t.columns.map Column.name) (m.fields.names.zip cs)
    refine ⟨hs.widen _ _, hl,
      ⟨fun u => if sameName u.name (nameOf m.name) then added else [], [], ?_, ?_, by simp⟩,
      _, table?_widen hfo hs _, fun f hf => ?_⟩
    · rw [widen, append_nil]
      refine map_congr_left fun u _ => ?_
      split
      next => rfl
      next => rw [widened_nil]
    · intro u _ c hc
      split at hc
      next hsa =>
        obtain ⟨⟨f, d⟩, mem, rfl⟩ := mem_map.1 hc
        obtain ⟨type, hfi, hd⟩ := of_mem_zip_columnsOf hco (mem_filter.1 mem).1
        exact ⟨m, mem_singleton_self m, hsa, (f, type), hfi, hd⟩
      next => cases hc
    · by_cases hk : f ∈ idColumn :: t.columns.map Column.name
      · exact Equipped.widened (.inl hk) _
      · obtain ⟨c, hb⟩ := exists_mem_zip_columnsOf hco hf
        obtain ⟨type, -, hd⟩ := of_mem_zip_columnsOf hco hb
        have mem : c ∈ added := mem_map.2 ⟨(f, c), mem_filter.2 ⟨hb, by simpa using hk⟩, rfl⟩
        refine .inr (mem_map.2 ⟨c, mem_append_right _ mem, hd.name⟩)
  | none =>
    obtain ⟨hde, t, hfr, rfl⟩ := (ensureTable_absent_iff hfo).1 h
    have ha : ∀ c ∈ t.columns, Asked [m] t.name c := by
      intro c hc
      obtain ⟨f, hf, hd⟩ := exists_of_mem_right hfr.columns hc
      refine ⟨m, mem_singleton_self m, hfr.name ▸ sameName_refl _, f, hf, ?_⟩
      rw [hde.line f.1 (mem_map_of_mem hf)]
      exact hd
    have own : Store.table? m.name { tables := s.tables ++ [t] } = some t := by
      rw [table?_append_of_none hfo, hfr.name, sameName_refl, if_pos rfl]
    refine ⟨hs.append hfr hfo, hde.legible,
      ⟨fun _ => [], [t], by simp, by simp, fun u hu => ?_⟩, t, own, fun f hf => .inl ?_⟩
    · cases mem_singleton.1 hu
      exact ⟨m, mem_singleton_self m, hfr.name, hfr.rows, ha⟩
    · obtain ⟨⟨_, type⟩, hfi, rfl⟩ := mem_map.1 hf
      obtain ⟨c, hc, hd⟩ := exists_of_mem_left hfr.columns hfi
      exact mem_cons_of_mem _ (mem_map.2 ⟨c, hc, hd.name⟩)

/-! ## All models -/

theorem Asked.mono (sub : models ⊆ ms') (ha : Asked models name c) : Asked ms' name c := by
  obtain ⟨m, hm, hr⟩ := ha
  exact ⟨m, sub hm, hr⟩

namespace Migrates

variable {extra more : Table → List Column} {made further : List Table}

theorem mono (sub : models ⊆ ms') (hmig : Migrates models s s' extra made) :
    Migrates ms' s s' extra made where
  tables := hmig.tables
  extra := fun t ht c hc => (hmig.extra t ht c hc).mono sub
  made := fun t ht => by
    obtain ⟨m, hm, name, hr, ha⟩ := hmig.made t ht
    exact ⟨m, sub hm, name, hr, fun c hc => (ha c hc).mono sub⟩

theorem trans (first : Migrates models s s' extra made) (hs : Migrates models s' s'' more further) :
    Migrates models s s'' (fun t => extra t ++ more (t.widened (extra t)))
      (made.map (fun t => t.widened (more t)) ++ further) where
  tables := by
    rw [hs.tables, first.tables]
    simp [comp_def]
  extra := by
    intro t ht c hc
    rcases mem_append.1 hc with old | new
    · exact first.extra t ht c old
    · have mem : t.widened (extra t) ∈ s'.tables := by
        rw [first.tables]
        exact mem_append_left _ (mem_map_of_mem ht)
      exact hs.extra _ mem c new
  made := by
    rw [forall_mem_append, forall_mem_map]
    refine ⟨fun t ht => ?_, hs.made⟩
    obtain ⟨m, hm, name, hr, ha⟩ := first.made t ht
    have mem : t ∈ s'.tables := by
      rw [first.tables]
      exact mem_append_right _ ht
    refine ⟨m, hm, name, by simp [widened, hr], fun c hc => ?_⟩
    rcases mem_append.1 hc with old | new
    · exact ha c old
    · exact hs.extra t mem c new

variable (hmi : Migrates models s s' extra made) {name : String}

include hmi

theorem table?_eq : s'.table? name = ((s.table? name).map fun t => t.widened (extra t)).or
    (made.find? fun t => sameName t.name (nameOf name)) := by
  unfold table?
  rw [hmi.tables, find?_append, find?_map]
  rfl

theorem table?_of_some (hfo : s.table? name = some t) : s'.table? name = some (t.widened (extra t)) := by
  rw [hmi.table?_eq, hfo]
  rfl

theorem mem_columns_or_asked (hfo : s'.table? name = some t') {c : Column} (hc : c ∈ t'.columns) :
    (∃ t, s.table? name = some t ∧ c ∈ t.columns) ∨ Asked models t'.name c := by
  rw [hmi.table?_eq] at hfo
  cases old : s.table? name with
  | some t =>
    rw [old] at hfo
    cases hfo
    rcases mem_append.1 hc with ht | new
    · exact .inl ⟨t, rfl, ht⟩
    · exact .inr (hmi.extra t (mem_of_find?_eq_some old) c new)
  | none =>
    rw [old] at hfo
    obtain ⟨m, -, -, -, ha⟩ := hmi.made t' (mem_of_find?_eq_some hfo)
    exact .inr (ha c hc)

theorem mem_tables_iff (ho : ∀ m ∈ models, sameName t.name (nameOf m.name) = false) :
    t ∈ s'.tables ↔ t ∈ s.tables := by
  have hs (u : Table) (hu : u ∈ s.tables) (name : u.name = t.name) : u.widened (extra u) = u := by
    have none : extra u = [] := by
      refine eq_nil_iff_forall_not_mem.2 fun c hc => ?_
      obtain ⟨m, hm, own, -⟩ := hmi.extra u hu c hc
      rw [name, ho m hm] at own
      cases own
    rw [none, widened_nil]
  rw [hmi.tables, mem_append, mem_map]
  constructor
  · rintro (⟨u, hu, rfl⟩ | new)
    · rwa [hs u hu rfl]
    · obtain ⟨m, hm, name, -⟩ := hmi.made t new
      have ha := ho m hm
      rw [name, sameName_refl] at ha
      cases ha
  · exact fun ht => .inl ⟨t, ht, hs t ht rfl⟩

end Migrates

theorem ensure_eq_ok (hs : Sound s) (h : ensure models s = .ok () s') :
    Sound s' ∧ (∃ extra made, Migrates models s s' extra made) ∧ ∀ m ∈ models, Legible m ∧
        ∃ t, s'.table? m.name = some t ∧ ∀ f ∈ m.fields.names, Equipped t f := by
  induction models generalizing s with
  | nil =>
    cases h
    exact ⟨hs, ⟨fun _ => [], [], by simp, by simp, by simp⟩, by simp⟩
  | cons m models ih =>
    obtain ⟨_, s₁, first, hr⟩ := bind_eq_ok h
    obtain ⟨sound₁, hl, ⟨_, _, one⟩, t, hfo, he⟩ := ensureTable_eq_ok hs first
    obtain ⟨hs', ⟨more, _, ho⟩, hea⟩ := ih sound₁ hr
    refine ⟨hs', ⟨_, _, (one.mono (by simp)).trans (ho.mono (by simp))⟩,
      forall_mem_cons.2 ⟨⟨hl, _, ho.table?_of_some hfo, fun f hf => ?_⟩, hea⟩⟩
    exact (he f hf).widened _

/-! ## A second time -/

/-- Where every field has a column, a model has nothing to add. It passes if and only if every field
stands there letter by letter. -/
theorem ensureTable_again_iff (hl : Legible m) (hfo : s.table? m.name = some t)
    (he : ∀ f ∈ m.fields.names, Equipped t f) : ensureTable m s = .ok () s' ↔
      (∀ f ∈ m.fields.names, f ∈ idColumn :: t.columns.map Column.name) ∧ s' = s := by
  obtain ⟨hi, cs, hc, hr⟩ := hl
  have hfu : ∀ e ∈ m.fields.names.zip cs, e.1 ∉ idColumn :: t.columns.map Column.name →
      namesRule e.2.name ∨ t.hasColumn e.2.name := by
    rintro ⟨f, c⟩ hb hu
    obtain ⟨type, hf, hde⟩ := of_mem_zip_columnsOf hc hb
    have name : c.name = nameOf f := hde.name
    have ht := (he f (of_mem_zip hb).1).resolve_left hu
    obtain ⟨d, hd, hs⟩ := mem_map.1 ht
    exact .inr (hasColumn_of_mem hd (by rw [name, nameOf_nameOf, hs]))
  have hco : addMissing m.name (idColumn :: t.columns.map Column.name)
      (m.fields.names.zip cs) s = .ok () s' ↔
      (∀ f ∈ m.fields.names, f ∈ idColumn :: t.columns.map Column.name) ∧ s' = s := by
    rw [addMissing_eq_ok_iff hfo hfu,
      ← forall_mem_map (P := fun f => f ∈ idColumn :: t.columns.map Column.name), map_fst_zip_columnsOf hc]
  rw [← hco]
  unfold ensureTable
  simp only [attempt_bind_eq_ok_iff, get_bind, hfo, checkIdentifier_eq_ok_iff]
  constructor
  · rintro ⟨_, -, cs', hc', _, -, run⟩
    cases hc.symm.trans hc'
    exact run
  · intro run
    exact ⟨(), hi, cs, hc, t, hr t, run⟩

theorem ensure_again_iff {P : Model → Prop}
    (he : ∀ m ∈ models, ∀ s', ensureTable m s = .ok () s' ↔ P m ∧ s' = s) :
    ensure models s = .ok () s' ↔ (∀ m ∈ models, P m) ∧ s' = s := by
  induction models with
  | nil => simp [ensure, pure, EStateM.pure, eq_comm]
  | cons m models ih =>
    obtain ⟨here, he⟩ := forall_mem_cons.1 he
    rw [forall_mem_cons, and_assoc, ← ih he]
    constructor
    · intro h
      obtain ⟨_, s₁, first, hr⟩ := bind_eq_ok h
      obtain ⟨hp, rfl⟩ := (here s₁).1 first
      exact ⟨hp, hr⟩
    · rintro ⟨hp, hr⟩
      exact (bind_of_ok ((here s).2 ⟨hp, rfl⟩)).trans hr

theorem letters_iff {extra : Table → List Column} {made : List Table}
    (hm : Migrates models s s' extra made) (hfo : s'.table? m.name = some t')
    (he : Equipped t' f) : f ∈ idColumn :: t'.columns.map Column.name ↔
      nameOf f = f ∨ ∃ t, s.table? m.name = some t ∧ f ∈ t.columns.map Column.name := by
  rw [mem_cons]
  constructor
  · rintro (rfl | ht)
    · exact .inl nameOf_idColumn
    · obtain ⟨c, hc, rfl⟩ := mem_map.1 ht
      rcases hm.mem_columns_or_asked hfo hc with ⟨t, old, mem⟩ | ⟨_, -, -, f, -, hd⟩
      · exact .inr ⟨t, old, mem_map_of_mem mem⟩
      · rw [hd.name]
        exact .inl (nameOf_nameOf f.1)
  · rintro (hl | ⟨t, old, mem⟩)
    · rw [Equipped, hl, mem_cons] at he
      exact he.elim id .inr
    · rw [hm.table?_of_some old] at hfo
      cases hfo
      rw [columns_widened, map_append]
      exact .inr (mem_append_left _ mem)

/-- What is promised of giving models to a store: every field has its column, a table keeps its rows,
with nothing in further columns, and a table of no model stays as it is. -/
structure Additive (models : List Model) (s s' : Store) : Prop where
  fields : ∀ m ∈ models, ∃ t, s'.table? m.name = some t ∧ ∀ f ∈ m.fields.names,
    f ∈ t.columns.map Column.name ∨ t.hasColumn f = true
  rows : ∀ name t, s.table? name = some t → ∃ added, s'.table? name = some (t.widened added) ∧
    (t.widened added).rows.map (t.widened added).object =
      t.rows.map fun r => t.object r ++ added.map fun c => (c.name, .null)
  others : ∀ t, (∀ m ∈ models, sameName t.name (nameOf m.name) = false) →
    (t ∈ s'.tables ↔ t ∈ s.tables)

theorem Equipped.hasColumn {f : String} (he : Equipped t f) :
    f ∈ t.columns.map Column.name ∨ t.hasColumn f := by
  rcases he with hl | ht
  · rcases mem_cons.1 hl with rfl | hl
    · right
      rw [hasColumn_eq, nameOf_idColumn, sameName_refl, Bool.true_or]
    · exact .inl hl
  · obtain ⟨c, hc, hs⟩ := mem_map.1 ht
    exact .inr (hasColumn_of_mem hc hs)

/-- Models can be given to a store without loss. Given again they change nothing, if and only if no
field's name ends in a line feed, or the field stood there with it before. -/
theorem ensure_additive (sound : Sound s) (run : ensure models s = .ok () s') :
    Additive models s s' ∧ Sound s' ∧ (∀ s'', ensure models s' = .ok () s'' → s'' = s') ∧
      (ensure models s' = .ok () s' ↔ ∀ m ∈ models, ∀ f ∈ m.fields.names,
        nameOf f = f ∨ ∃ t, s.table? m.name = some t ∧ f ∈ t.columns.map Column.name) := by
  obtain ⟨sound', ⟨extra, made, migrates⟩, each⟩ := ensure_eq_ok sound run
  have again (s'' : Store) : ensure models s' = .ok () s'' ↔ (∀ m ∈ models, ∀ f ∈ m.fields.names,
      nameOf f = f ∨ ∃ t, s.table? m.name = some t ∧ f ∈ t.columns.map Column.name) ∧ s'' = s' := by
    refine ensure_again_iff fun m hm s'' => ?_
    obtain ⟨legible, t, found, equipped⟩ := each m hm
    rw [ensureTable_again_iff legible found equipped]
    exact and_congr_left fun _ => forall₂_congr fun f hf =>
      letters_iff migrates found (equipped f hf)
  refine ⟨⟨fun m hm => ?_, fun name t found => ?_, fun t other => ?_⟩, sound',
    fun s'' h => ((again s'').mp h).2, (again s').trans (and_iff_left rfl)⟩
  · obtain ⟨-, t, found, equipped⟩ := each m hm
    exact ⟨t, found, fun f hf => (equipped f hf).hasColumn⟩
  · refine ⟨extra t, migrates.table?_of_some found, objects_widened ?_ _⟩
    exact sound.cells t (List.mem_of_find?_eq_some found)
  · exact migrates.mem_tables_iff other

/-! ## Notes that get stars -/

def plainNotes : Store where
  tables := [{
    name := "Note"
    columns := [⟨"text", .text⟩]
    rows := [⟨1, [.text "one"]⟩]
    lastId := 1 }]

def noteWith (field : String) : Model where
  name := "Note"
  fields := [("text", .text), (field, .int)]

theorem sound_plainNotes : Sound plainNotes where
  apart := pairwise_singleton _ _
  ids := forall_mem_singleton.2 (by decide)
  cells := forall_mem_singleton.2 (forall_mem_singleton.2 rfl)

/-- What is wrong when models are given to a store twice; nothing may be, and the models may not be
taken the first time. -/
def faultAgain? (models : List Model) (s : Store) : Option (Option Error) :=
  match ensure models s with
  | .ok _ s' =>
    match ensure models s' with
    | .ok _ _ => some none
    | .error e _ => some (some e)
  | .error _ _ => none

theorem ensure_of_faultAgain? {fault : Option Error} (h : faultAgain? models s = some fault) :
    ∃ s', ensure models s = .ok () s' ∧ ∀ e, fault = some e → ∃ s'', ensure models s' = .error e s'' := by
  unfold faultAgain? at h
  split at h
  next s' first =>
    refine ⟨s', first, ?_⟩
    split at h
    · cases h
      exact fun e none => by cases none
    next e' s'' hs =>
      cases h
      rintro e ⟨⟩
      exact ⟨s'', hs⟩
  next => cases h

/-- The note has no stars at first, and giving the model again changes nothing. -/
theorem notes_get_stars : ∃ s', ensure [noteWith "stars"] plainNotes = .ok () s' ∧
    Additive [noteWith "stars"] plainNotes s' ∧ ensure [noteWith "stars"] s' = .ok () s' := by
  have taken : faultAgain? [noteWith "stars"] plainNotes = some none := by decide +kernel
  obtain ⟨s', run, -⟩ := ensure_of_faultAgain? taken
  obtain ⟨additive, -, -, again⟩ := ensure_additive sound_plainNotes run
  have lines : ∀ f ∈ (noteWith "stars").fields.names, nameOf f = f := by decide +kernel
  refine ⟨s', run, additive, again.mpr (List.forall_mem_singleton.mpr fun f hf => ?_)⟩
  exact .inl (lines f hf)

/-- A field with a line feed at its end is added, but is not found when the model is given again. -/
theorem line_feed_not_found_again : ∃ s' s'',
    ensure [noteWith "stars\n"] plainNotes = .ok () s' ∧
      ensure [noteWith "stars\n"] s' = .error (.duplicateColumn "stars") s'' := by
  have fault : faultAgain? [noteWith "stars\n"] plainNotes =
      some (some (.duplicateColumn "stars")) := by decide +kernel
  obtain ⟨s', run, again⟩ := ensure_of_faultAgain? fault
  obtain ⟨s'', second⟩ := again _ rfl
  exact ⟨s', s'', run, second⟩

end Appwright.Store
