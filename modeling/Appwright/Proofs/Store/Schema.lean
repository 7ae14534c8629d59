import Appwright.Proofs.Spec.Accepted
import Appwright.Proofs.Store.Reading
import Mathlib.Data.List.DropRight

/-!
# Tables for models

Models get their tables one after another. One that finds none under its name gets a new table, with
a column for each field, if and only if its names can stand in the statement that makes the table
(`WellNamed`) and the check of its parts lets them pass (`ensureTable_absent_iff`).
-/

namespace Appwright.Store

open List Spec Text Store

variable {s s' : Store} {m : Model} {t t' : Table} {name : String} {cs : List Column}
  {ms : List Model}

/-! ## Names -/

theorem nameOf_nameOf (name : String) : nameOf (nameOf name) = nameOf name := by
  simp [nameOf, trimBack, dropBack, dropLastWhile, dropWhile_idempotent]

theorem sameName_iff {a b : String} :
    sameName a b ↔ a.toList.map Char.toLower = b.toList.map Char.toLower :=
  beq_iff_eq

@[simp] theorem sameName_refl (a : String) : sameName a a := sameName_iff.mpr rfl

theorem sameName_comm (a b : String) : sameName a b = sameName b a := by
  rw [Bool.eq_iff_iff, sameName_iff, sameName_iff, eq_comm]

/-- A model's names can stand in the statement that makes its table: none has a meaning of its own
there, no field's name ends in a line feed, and no two columns have one name. -/
structure WellNamed (m : Model) : Prop where
  table : isKeywordOfTable (nameOf m.name) = false
  reserved : startsWith (nameOf m.name).toLower "sqlite_" = false
  lasting : isLostInSchema (nameOf m.name) = false
  line : ∀ f ∈ m.fields.names, nameOf f = f
  words : ∀ f ∈ m.fields.names, isKeywordOfTable f = false
  apart : (idColumn :: m.fields.names).Pairwise fun a b => sameName a b = false

structure Declarable (m : Model) : Prop extends WellNamed m where
  ident : isIdentLine m.name = true
  idents : ∀ f ∈ m.fields, isIdentLine f.1 = true
  known : ∀ f ∈ m.fields, ∀ name, f.2 ≠ .other name

structure Declares (f : String × FieldType) (c : Column) : Prop where
  name : c.name = f.1
  affinity : affinityOf f.2 = .ok c.affinity

/-- A table for a model: besides the ids it has a column for each field, in order. -/
structure Houses (m : Model) (t : Table) : Prop where
  name : t.name = nameOf m.name
  columns : Forall₂ Declares m.fields t.columns

structure Fresh (m : Model) (t : Table) : Prop extends Houses m t where
  rows : t.rows = []
  lastId : t.lastId = 0

def Apart (m n : Model) : Prop :=
  sameName (nameOf m.name) (nameOf n.name) = false

instance : DecidableRel Apart := fun _ _ => inferInstanceAs (Decidable (_ = false))

/-! ## Columns -/

theorem exists_affinityOf_iff {type : FieldType} :
    (∃ a, affinityOf type = .ok a) ↔ ∀ name, type ≠ .other name := by
  cases type <;> simp [affinityOf]

theorem checkIdentifier_eq_ok_iff {part : String} {u : Unit} :
    checkIdentifier part name = .ok u ↔ isIdentLine name := by
  unfold checkIdentifier
  cases isIdentLine name <;> simp

theorem columnsOf_eq_ok_iff : columnsOf m = .ok cs ↔ (∀ f ∈ m.fields, isIdentLine f.1) ∧
      Forall₂ (fun f c => Declares (nameOf f.1, f.2) c) m.fields cs := by
  unfold columnsOf
  rw [mapM_eq_ok_iff, ← forall₂_and_left]
  have one (f : String × FieldType) (c : Column) : (do
      checkIdentifier ("field in " ++ m.name) f.1
      let affinity ← affinityOf f.2
      return { name := nameOf f.1, affinity : Column } : Except Error Column) = .ok c ↔
        isIdentLine f.1 ∧ Declares (nameOf f.1, f.2) c := by
    constructor
    · intro h
      obtain ⟨_, hi, h⟩ := of_bind_ok h
      obtain ⟨a, hk, ⟨⟩⟩ := of_bind_ok h
      exact ⟨checkIdentifier_eq_ok_iff.mp hi, rfl, hk⟩
    · rintro ⟨hi, hd⟩
      have hk : affinityOf f.2 = .ok c.affinity := hd.affinity
      have name : nameOf f.1 = c.name := hd.name.symm
      rw [checkIdentifier, if_pos hi, hk, name]
      rfl
  simp only [one]

theorem hasColumn_eq (name : String) (t : Table) : t.hasColumn name =
    (sameName idColumn (nameOf name) || t.columns.any fun c => sameName c.name (nameOf name)) := by
  rw [Table.hasColumn, Table.column?, findIdx?_isSome]

theorem hasColumn_of_mem {c : Column} (hc : c ∈ t.columns) (hs : c.name = nameOf name) :
    t.hasColumn name := by
  rw [hasColumn_eq, Bool.or_eq_true, any_eq_true]
  exact .inr ⟨c, hc, hs ▸ sameName_refl _⟩

theorem addColumn_eq_ok_iff {c : Column} (he : t.rows = []) : addColumn c t = .ok t' ↔
    t.hasColumn c.name = false ∧ t' = { t with columns := t.columns ++ [c] } := by
  unfold addColumn
  cases t.hasColumn c.name with
  | true => simp
  | false => simp [he, eq_comm]

/-! ## Statements -/

theorem declare_eq_ok {ruled : Bool} (he : t.rows = [])
    (h : declare addColumn t ruled cs = .ok t') : t'.name = t.name ∧
      ∀ c, c ∈ t'.columns ↔ c ∈ t.columns ∨ c ∈ cs ∧ namesRule c.name = false := by
  induction cs generalizing t ruled with
  | nil => cases h; simp
  | cons d cs ih =>
    unfold declare at h
    split at h
    · cases h
    cases hr : namesRule d.name with
    | true =>
      rw [if_pos hr] at h
      obtain ⟨hn, held⟩ := ih he h
      refine ⟨hn, fun c => ?_⟩
      have ho : c = d → namesRule c.name := by rintro rfl; exact hr
      grind
    | false =>
      rw [if_neg (by simp [hr])] at h
      obtain ⟨u, ha, h⟩ := of_bind_ok h
      obtain ⟨-, rfl⟩ := (addColumn_eq_ok_iff he).mp ha
      obtain ⟨hn, held⟩ := ih (t := { t with columns := t.columns ++ [d] }) he h
      refine ⟨hn, fun c => ?_⟩
      have ho : c = d → namesRule c.name = false := by rintro rfl; exact hr
      grind

/-- Columns of which none names a rule are declared if their words are free and their names are
new. -/
theorem declare_eq_ok_iff (he : t.rows = []) (hu : ∀ c ∈ cs, namesRule c.name = false) :
    declare addColumn t false cs = .ok t' ↔
      (∀ c ∈ cs, isKeyword c.name = false ∧ opensRule c.name = false ∧ t.hasColumn c.name = false) ∧
      cs.Pairwise (fun c d => sameName c.name (nameOf d.name) = false) ∧
      t' = { t with columns := t.columns ++ cs } := by
  induction cs generalizing t with
  | nil =>
    rw [declare]
    constructor
    · intro h
      cases h
      simp
    · rintro ⟨-, -, rfl⟩
      simp
  | cons d cs ih =>
    have hr := hu d mem_cons_self
    have hre : ∀ c ∈ cs, namesRule c.name = false := fun c hc => hu c (.tail d hc)
    have hfr : fault? false d = none ↔ isKeyword d.name = false ∧ opensRule d.name = false := by
      unfold fault?
      cases isKeyword d.name <;> cases opensRule d.name <;> simp
    have hw (c : Column) : ({ t with columns := t.columns ++ [d] } : Table).hasColumn c.name =
        (t.hasColumn c.name || sameName d.name (nameOf c.name)) := by
      simp [hasColumn_eq, Bool.or_assoc]
    have hl := ih (t := { t with columns := t.columns ++ [d] }) he hre
    unfold declare
    cases hf : fault? false d with
    | some e =>
      have bad : ¬ (isKeyword d.name = false ∧ opensRule d.name = false) := by
        rw [← hfr, hf]
        simp
      simp only [forall_mem_cons]
      constructor
      · intro h
        cases h
      · rintro ⟨⟨⟨k, o, -⟩, -⟩, -⟩
        exact absurd ⟨k, o⟩ bad
    | none =>
      obtain ⟨k, o⟩ := hfr.mp hf
      rw [if_neg (by simp [hr])]
      constructor
      · intro h
        obtain ⟨u, had, h⟩ := of_bind_ok h
        obtain ⟨new, rfl⟩ := (addColumn_eq_ok_iff he).mp had
        obtain ⟨hfi, ha, rfl⟩ := hl.mp h
        simp only [hw, Bool.or_eq_false_iff] at hfi
        refine ⟨forall_mem_cons.mpr ⟨⟨k, o, new⟩, fun c hc => ?_⟩,
          pairwise_cons.mpr ⟨fun c hc => (hfi c hc).2.2.2, ha⟩, by simp⟩
        exact ⟨(hfi c hc).1, (hfi c hc).2.1, (hfi c hc).2.2.1⟩
      · rintro ⟨hfi, ha, rfl⟩
        obtain ⟨⟨-, -, new⟩, hfi⟩ := forall_mem_cons.mp hfi
        obtain ⟨first, ha⟩ := pairwise_cons.mp ha
        rw [(addColumn_eq_ok_iff he).mpr ⟨new, rfl⟩]
        refine hl.mpr ⟨fun c hc => ?_, ha, by simp⟩
        rw [hw, Bool.or_eq_false_iff]
        exact ⟨(hfi c hc).1, (hfi c hc).2.1, (hfi c hc).2.2, first c hc⟩

theorem newTable_eq_ok_iff : newTable name cs = .ok t ↔
    isKeywordOfTable name = false ∧ startsWith name.toLower "sqlite_" = false ∧
      isLostInSchema name = false ∧ declare addColumn { name, columns := [] } false cs = .ok t := by
  unfold newTable
  cases isKeywordOfTable name <;> cases startsWith name.toLower "sqlite_" <;>
    cases declare addColumn { name, columns := [] } false cs <;> cases isLostInSchema name <;>
    simp [throw, throwThe, MonadExceptOf.throw, Bind.bind, Except.bind, pure, Except.pure]

theorem addMissing_eq_ok_iff {old : List String} {ps : List (String × Column)}
    (hf : s.table? name = some t) (hfu : ∀ e ∈ ps, e.1 ∉ old →
      namesRule e.2.name ∨ t.hasColumn e.2.name) :
    addMissing name old ps s = .ok () s' ↔ (∀ e ∈ ps, e.1 ∈ old) ∧ s' = s := by
  induction ps with
  | nil =>
    simp [addMissing, pure, EStateM.pure, eq_comm]
  | cons e ps ih =>
    obtain ⟨fd, c⟩ := e
    obtain ⟨here, hfu⟩ := forall_mem_cons.mp hfu
    unfold addMissing
    by_cases hk : fd ∈ old
    · rw [if_pos (by simpa using hk), forall_mem_cons]
      exact (ih hfu).trans (and_congr_left fun _ => (and_iff_right hk).symm)
    · rw [if_neg (by simpa using hk), get_bind, hf, forall_mem_cons]
      refine ⟨fun h => ?_, fun h => absurd h.1.1 hk⟩
      dsimp only at h here
      split at h
      · cases h
      · rename_i hu
        have dup : addColumn c t = .error (.duplicateColumn c.name) := if_pos ((here hk).resolve_left hu)
        rw [dup] at h
        cases h

/-! ## The table of a model -/

theorem map_eq_map_of_forall₂ {α β γ : Type} {f : α → γ} {g : β → γ} {xs : List α} {ys : List β}
    (he : Forall₂ (fun x y => g y = f x) xs ys) : ys.map g = xs.map f := by
  rw [eq_comm, ← forall₂_eq_eq_eq, forall₂_map_left_iff, forall₂_map_right_iff]
  exact he.imp fun _ _ hs => hs.symm

theorem names_of_columnsOf (columns : columnsOf m = .ok cs) :
    cs.map Column.name = m.fields.names.map nameOf := by
  rw [Entries.names, map_map]
  exact map_eq_map_of_forall₂ ((columnsOf_eq_ok_iff.mp columns).2.imp fun f c => Declares.name)

theorem map_fst_zip_columnsOf (columns : columnsOf m = .ok cs) :
    (m.fields.names.zip cs).map Prod.fst = m.fields.names := by
  refine map_fst_zip (le_of_eq ?_)
  simpa using (congrArg length (names_of_columnsOf columns)).symm

theorem Declares.eq {f : String × FieldType} {c d : Column} (hc : Declares f c)
    (hd : Declares f d) : c = d := by
  have hk := hc.affinity.symm.trans hd.affinity
  have name := hc.name.trans hd.name.symm
  cases c
  cases d
  cases hk
  cases name
  rfl

theorem Fresh.eq (ht : Fresh m t) (ht' : Fresh m t') : t = t' := by
  have hu : Relator.RightUnique Declares := fun _ _ _ hc hd => hc.eq hd
  have columns := right_unique_forall₂' hu ht.columns ht'.columns
  have name := ht.name.trans ht'.name.symm
  have hr := ht.rows.trans ht'.rows.symm
  have hl := ht.lastId.trans ht'.lastId.symm
  cases t
  cases t'
  cases columns
  cases name
  cases hr
  cases hl
  rfl

section Columns

variable {cs : List Column} (columns : columnsOf m = .ok cs)
  (line : ∀ f ∈ m.fields.names, nameOf f = f)

include columns line

theorem names_eq_of_line : cs.map Column.name = m.fields.names := by
  rw [names_of_columnsOf columns]
  conv_rhs => rw [← map_id m.fields.names]
  exact map_congr_left line

theorem fresh_of_line : Fresh m { name := nameOf m.name, columns := cs } := by
  refine ⟨⟨rfl, ?_⟩, rfl, rfl⟩
  have he := (columnsOf_eq_ok_iff.mp columns).2
  have own : ∀ f ∈ m.fields, nameOf f.1 = f.1 := fun f hf => line f.1 (mem_map_of_mem hf)
  refine ((forall₂_and_left _ _).mpr ⟨own, he⟩).imp fun f c => ?_
  rintro ⟨hs, hd⟩
  rw [hs] at hd
  exact hd

end Columns

theorem nameOf_idColumn : nameOf idColumn = idColumn := by decide +kernel

theorem isKeywordOfTable_eq_false_iff {word : String} : isKeywordOfTable word = false ↔
    isKeyword word = false ∧ opensRule word = false ∧ namesRule word = false := by
  simp [isKeywordOfTable, and_assoc]

section Made

variable {cs : List Column} (columns : columnsOf m = .ok cs)

include columns

theorem line_of_newTable (hm : newTable (nameOf m.name) cs = .ok t)
    (hl : ∀ f ∈ m.fields.names, f ∈ idColumn :: t.columns.map Column.name) :
    (∀ f ∈ m.fields.names, nameOf f = f) ∧ ∀ f ∈ m.fields.names, namesRule f = false := by
  obtain ⟨-, -, -, hd⟩ := newTable_eq_ok_iff.mp hm
  obtain ⟨-, held⟩ := declare_eq_ok rfl hd
  rw [← forall₂_and]
  intro f hf
  rcases mem_cons.mp (hl f hf) with rfl | hi
  · exact ⟨nameOf_idColumn, by decide +kernel⟩
  · obtain ⟨c, hc, rfl⟩ := mem_map.mp hi
    obtain ⟨hc, hu⟩ := ((held c).mp hc).resolve_left not_mem_nil
    obtain ⟨g, -, hs⟩ := mem_map.mp (names_of_columnsOf columns ▸ mem_map_of_mem hc)
    refine ⟨?_, hu⟩
    rw [← hs, nameOf_nameOf]

theorem declarable_of_newTable (hi : isIdentLine m.name) (hm : newTable (nameOf m.name) cs = .ok t)
    (hl : ∀ f ∈ m.fields.names, f ∈ idColumn :: t.columns.map Column.name) : Declarable m ∧ Fresh m t := by
  obtain ⟨ht, hr, hla, hdec⟩ := newTable_eq_ok_iff.mp hm
  obtain ⟨line, hu⟩ := line_of_newTable columns hm hl
  have names := names_eq_of_line columns line
  have own : ∀ c ∈ cs, nameOf c.name = c.name := fun c hc =>
    line c.name (names ▸ mem_map_of_mem hc)
  rw [← names, forall_mem_map] at hu
  obtain ⟨hf, hdi, rfl⟩ := (declare_eq_ok_iff rfl hu).mp hdec
  refine ⟨⟨⟨ht, hr, hla, line, ?_, ?_⟩, hi, ?_, ?_⟩, fresh_of_line columns line⟩
  · rw [← names, forall_mem_map]
    exact fun c hc => isKeywordOfTable_eq_false_iff.mpr ⟨(hf c hc).1, (hf c hc).2.1, hu c hc⟩
  · rw [← names, pairwise_cons, forall_mem_map, pairwise_map]
    refine ⟨fun c hc => ?_, hdi.imp_of_mem fun {c d} hc hd ha => ?_⟩
    · simpa [hasColumn_eq, own c hc] using (hf c hc).2.2
    · rwa [own d hd] at ha
  · exact (columnsOf_eq_ok_iff.mp columns).1
  · have he := (columnsOf_eq_ok_iff.mp columns).2.imp fun f c hde =>
      And.intro (exists_affinityOf_iff.mp ⟨_, hde.affinity⟩) hde
    exact ((forall₂_and_left _ _).mp he).1

theorem newTable_of_declarable (hde : Declarable m) :
    newTable (nameOf m.name) cs = .ok { name := nameOf m.name, columns := cs } := by
  have names := names_eq_of_line columns hde.line
  have hw := hde.words
  have ha := hde.apart
  rw [← names, forall_mem_map] at hw
  rw [← names, pairwise_cons, forall_mem_map, pairwise_map] at ha
  have own : ∀ c ∈ cs, nameOf c.name = c.name := fun c hc =>
    hde.line c.name (names ▸ mem_map_of_mem hc)
  refine newTable_eq_ok_iff.mpr ⟨hde.table, hde.reserved, hde.lasting,
    (declare_eq_ok_iff rfl fun c hc => ?_).mpr ⟨fun c hc => ?_, ?_, rfl⟩⟩
  · exact (isKeywordOfTable_eq_false_iff.mp (hw c hc)).2.2
  · obtain ⟨hk, hr, -⟩ := isKeywordOfTable_eq_false_iff.mp (hw c hc)
    refine ⟨hk, hr, ?_⟩
    simpa [hasColumn_eq, own c hc] using ha.1 c hc
  · refine ha.2.imp_of_mem fun {c d} hc hd ha => ?_
    rwa [own d hd]

/-- The table of a model is made, and has the names of its fields letter by letter, if and only if
the model is declarable. -/
theorem newTable_nameOf_iff (hi : isIdentLine m.name) : (newTable (nameOf m.name) cs = .ok t ∧
      ∀ f ∈ m.fields.names, f ∈ idColumn :: t.columns.map Column.name) ↔
    Declarable m ∧ Fresh m t := by
  constructor
  · rintro ⟨hm, hl⟩
    exact declarable_of_newTable columns hi hm hl
  · rintro ⟨hd, hfr⟩
    obtain rfl := hfr.eq (fresh_of_line columns hd.line)
    refine ⟨newTable_of_declarable columns hd, fun f hf => ?_⟩
    rw [← names_eq_of_line columns hd.line] at hf
    exact .tail _ hf

end Made

theorem table?_append_of_none {name : String} (hab : s.table? name = none) (t : Table) :
    table? name { tables := s.tables ++ [t] } =
      if sameName t.name (nameOf name) then some t else none := by
  unfold table? at hab ⊢
  rw [find?_append, hab, find?_singleton, Option.none_or]

theorem Declarable.exists_columns (hd : Declarable m) : ∃ cs, columnsOf m = .ok cs := by
  refine ⟨m.fields.map fun f => ⟨nameOf f.1, (affinityOf f.2).toOption.getD .text⟩,
    columnsOf_eq_ok_iff.mpr ⟨hd.idents, ?_⟩⟩
  rw [forall₂_map_right_iff, forall₂_same]
  intro f hf
  obtain ⟨a, hk⟩ := exists_affinityOf_iff.mpr (hd.known f hf)
  refine ⟨rfl, ?_⟩
  rw [hk]
  rfl

theorem Declarable.exists_fresh (hd : Declarable m) : ∃ t, Fresh m t := by
  obtain ⟨cs, columns⟩ := hd.exists_columns
  exact ⟨_, fresh_of_line columns hd.line⟩

section Absent

variable (hab : s.table? m.name = none)

include hab

theorem addMissing_newTable_iff {cs : List Column} (columns : columnsOf m = .ok cs)
    (hm : newTable (nameOf m.name) cs = .ok t) :
    table? m.name { tables := s.tables ++ [t] } = some t ∧
    ∀ s', addMissing m.name (idColumn :: t.columns.map Column.name) (m.fields.names.zip cs)
        { tables := s.tables ++ [t] } = .ok () s' ↔
      (∀ f ∈ m.fields.names, f ∈ idColumn :: t.columns.map Column.name) ∧
        s' = { tables := s.tables ++ [t] } := by
  obtain ⟨-, -, -, hd⟩ := newTable_eq_ok_iff.mp hm
  obtain ⟨hn, held⟩ := declare_eq_ok rfl hd
  have names := names_of_columnsOf columns
  have hf : table? m.name { tables := s.tables ++ [t] } = some t := by
    rw [table?_append_of_none hab, hn]
    simp
  have hfu : ∀ e ∈ m.fields.names.zip cs, namesRule e.2.name ∨ t.hasColumn e.2.name := by
    intro e he
    have mem := (of_mem_zip he).2
    cases hr : namesRule e.2.name with
    | true => exact .inl rfl
    | false =>
      obtain ⟨f, -, hsa⟩ := mem_map.mp (names ▸ mem_map_of_mem mem)
      have hs : nameOf e.2.name = e.2.name := by rw [← hsa, nameOf_nameOf]
      exact .inr (hasColumn_of_mem ((held e.2).mpr (.inr ⟨mem, hr⟩)) hs.symm)
  refine ⟨hf, fun s' => ?_⟩
  rw [addMissing_eq_ok_iff hf fun e he _ => hfu e he,
    ← forall_mem_map (P := fun f => f ∈ idColumn :: t.columns.map Column.name),
    map_fst_zip_columnsOf columns]

theorem ensureTable_absent_iff : ensureTable m s = .ok () s' ↔
    Declarable m ∧ ∃ t, Fresh m t ∧ s' = { tables := s.tables ++ [t] } := by
  unfold ensureTable
  simp only [attempt_bind_eq_ok_iff, get_bind, set_bind, hab, checkIdentifier_eq_ok_iff]
  constructor
  · rintro ⟨_, hi, cs, columns, t, hm, run⟩
    obtain ⟨hf, hc⟩ := addMissing_newTable_iff hab columns hm
    rw [hf] at run
    obtain ⟨hl, rfl⟩ := (hc s').mp run
    obtain ⟨hd, hfr⟩ := (newTable_nameOf_iff columns hi).mp ⟨hm, hl⟩
    exact ⟨hd, t, hfr, rfl⟩
  · rintro ⟨hd, t, hfr, rfl⟩
    obtain ⟨cs, columns⟩ := hd.exists_columns
    obtain ⟨hm, hl⟩ := (newTable_nameOf_iff columns hd.ident).mpr ⟨hd, hfr⟩
    obtain ⟨hf, hc⟩ := addMissing_newTable_iff hab columns hm
    refine ⟨(), hd.ident, cs, columns, t, hm, ?_⟩
    rw [hf]
    exact (hc _).mpr ⟨hl, rfl⟩

end Absent

/-! ## The tables of all models -/

theorem table?_append_fresh_iff {n : Model} (hf : Fresh m t) :
    table? n.name { tables := s.tables ++ [t] } = none ↔ s.table? n.name = none ∧ Apart m n := by
  unfold table? Apart
  rw [find?_append, Option.or_eq_none_iff, ← hf.name]
  simp

/-- Models that find no table, and that do not find those of each other, get a table each if and
only if they are declarable. -/
theorem ensure_eq_ok_iff (hab : ∀ m ∈ ms, s.table? m.name = none)
    (ha : ms.Pairwise Apart) : ensure ms s = .ok () s' ↔ (∀ m ∈ ms, Declarable m) ∧
        ∃ ts, Forall₂ Fresh ms ts ∧ s' = { tables := s.tables ++ ts } := by
  induction ms generalizing s with
  | nil =>
    constructor
    · intro h
      cases h
      exact ⟨by simp, [], .nil, by simp⟩
    · rintro ⟨-, ts, he, rfl⟩
      cases he
      rw [append_nil]
      rfl
  | cons m ms ih =>
    obtain ⟨here, hab⟩ := forall_mem_cons.mp hab
    obtain ⟨first, ha⟩ := pairwise_cons.mp ha
    have hl {t : Table} (hf : Fresh m t) := ih (s := { tables := s.tables ++ [t] })
        (fun n hn => (table?_append_fresh_iff hf).mpr ⟨hab n hn, first n hn⟩) ha
    constructor
    · intro h
      obtain ⟨_, s₁, hm, hr⟩ := bind_eq_ok h
      obtain ⟨hd, t, hf, rfl⟩ := (ensureTable_absent_iff here).mp hm
      obtain ⟨ho, ts, he, rfl⟩ := (hl hf).mp hr
      exact ⟨forall_mem_cons.mpr ⟨hd, ho⟩, t :: ts, .cons hf he, by simp⟩
    · rintro ⟨hd, _, ⟨⟩, rfl⟩
      rename_i t ts hf he
      obtain ⟨hd, ho⟩ := forall_mem_cons.mp hd
      rw [ensure, bind_of_ok ((ensureTable_absent_iff here).mpr ⟨hd, t, hf, rfl⟩)]
      exact (hl hf).mpr ⟨ho, ts, he, by simp⟩

theorem exists_table?_of_forall₂ {R : Model → Table → Prop}
    (hn : ∀ m t, R m t → t.name = nameOf m.name) (ha : ms.Pairwise Apart)
    (he : Forall₂ R ms s.tables) (hm : m ∈ ms) :
    ∃ t, s.table? m.name = some t ∧ R m t := by
  unfold table?
  generalize s.tables = ts at he ⊢
  induction he with
  | nil => cases hm
  | @cons n t ms ts own _ ih =>
    obtain ⟨first, ha⟩ := pairwise_cons.mp ha
    rw [find?_cons, hn n t own]
    rcases mem_cons.mp hm with rfl | hm
    · exact ⟨t, by rw [sameName_refl], own⟩
    · have ho : sameName (nameOf n.name) (nameOf m.name) = false := first m hm
      rw [ho]
      exact ih ha hm

end Appwright.Store
