import Appwright.Proofs.Store.Migration

/-!
# Tables of their own

In a store that has none, each model gets a table of its own if and only if it is declarable and no
two models have one name up to letter case. For the models of an accepted specification it is enough
that they are `WellNamed`; but the check of a specification does not ask for this.
-/

namespace Appwright.Store

open Spec List

variable {m : Model} {ms : List Model}

/-- Each model has a table of its own, which never had a row, and finds it under its name. There are
no other tables. -/
structure Furnished (models : List Model) (s : Store) : Prop where
  tables : List.Forall₂ Fresh models s.tables
  found : ∀ m ∈ models, ∃ t, s.table? m.name = some t ∧ Fresh m t

theorem ensure_furnished_iff : (∃ s, ensure ms {} = .ok () s ∧ Furnished ms s) ↔
    (∀ m ∈ ms, Declarable m) ∧ ms.Pairwise Apart := by
  constructor
  · rintro ⟨s, run, hfu⟩
    have ha : ms.Pairwise Apart := by
      have hn := map_eq_map_of_forall₂ (hfu.tables.imp fun m t hf => hf.name)
      have ha := (ensure_eq_ok ⟨.nil, by simp, by simp⟩ run).1.apart
      rw [← pairwise_map (R := fun a b => sameName a b = false), hn, pairwise_map] at ha
      exact ha
    exact ⟨((ensure_eq_ok_iff (fun _ _ => rfl) ha).1 run).1, ha⟩
  · rintro ⟨hd, ha⟩
    choose! tb hf using fun m (hm : m ∈ ms) => (hd m hm).exists_fresh
    have he : List.Forall₂ Fresh ms (ms.map tb) := by
      rw [forall₂_map_right_iff, forall₂_same]
      exact hf
    have run := (ensure_eq_ok_iff (s := {}) (fun _ _ => rfl) ha).2 ⟨hd, _, he, rfl⟩
    exact ⟨_, run, he, fun m hm => exists_table?_of_forall₂ (fun _ _ own => own.name) ha he hm⟩

/-! ## Accepted specifications -/

theorem declarable_iff_of_accepted {spec : Json.Members} {app : App}
    (ha : check spec = .ok app) (hm : m ∈ app.models) : Declarable m ↔ WellNamed m := by
  have hp := modelPassed_of_accepted ha hm
  exact ⟨fun h => h.toWellNamed, fun h => ⟨h, hp.name, hp.fieldNames, hp.known⟩⟩

/-- The models of an accepted specification get a table each, with the ids and a column for each
field, if and only if their names can stand in the statements and differ in more than letter
case. -/
theorem accepted_furnished_iff {spec : Json.Members} {app : Spec.App}
    (accepted : Spec.check spec = .ok app) :
    (∃ s, ensure app.models {} = .ok () s ∧ Furnished app.models s) ↔
      (∀ m ∈ app.models, WellNamed m) ∧ app.models.Pairwise Apart := by
  rw [ensure_furnished_iff]
  refine and_congr_left fun _ => forall₂_congr fun m hm => ?_
  exact declarable_iff_of_accepted accepted hm

def textSpec (models : List (String × List String)) : Json.Members := [
  ("db", .obj [("path", .str ":memory:"), ("models", .arr (models.map fun m =>
    .obj [("name", .str m.1), ("fields", .obj (m.2.map fun f => (f, .str "text")))]))])]

/-- The tables that are made for a specification, or what is said if they cannot be made. -/
def tablesFor (spec : Json.Members) : Option (Except String (List (String × List String))) :=
  match check spec with
  | .ok app =>
    match ensure app.models {} with
    | .ok _ s => some (.ok (s.tables.map fun t => (t.name, t.columns.map Column.name)))
    | .error e _ => some (.error e.message)
  | .error _ => none

instance (m : Model) : Decidable (WellNamed m) :=
  decidable_of_iff
    (isKeywordOfTable (nameOf m.name) = false ∧
      Text.startsWith (nameOf m.name).toLower "sqlite_" = false ∧
      isLostInSchema (nameOf m.name) = false ∧
      (∀ f ∈ m.fields.names, nameOf f = f) ∧
      (∀ f ∈ m.fields.names, isKeywordOfTable f = false) ∧
      (idColumn :: m.fields.names).Pairwise fun a b => sameName a b = false)
    ⟨fun ⟨table, reserved, lasting, line, words, apart⟩ =>
      ⟨table, reserved, lasting, line, words, apart⟩,
      fun h => ⟨h.table, h.reserved, h.lasting, h.line, h.words, h.apart⟩⟩

/-- Notes and their headings get a table each. -/
theorem notes_furnished : ∃ app s,
    Spec.check (textSpec [("Note", ["heading", "text"]), ("Heading\n", ["Note"])]) = .ok app ∧
      ensure app.models {} = .ok () s ∧ Furnished app.models s := by
  have facts : (Spec.check (textSpec
      [("Note", ["heading", "text"]), ("Heading\n", ["Note"])])).toOption.map (fun app =>
        (decide (∀ m ∈ app.models, WellNamed m), decide (app.models.Pairwise Apart))) =
      some (true, true) := by
    decide +kernel
  obtain ⟨app, accepted, held⟩ := exists_ok_of_toOption facts
  obtain ⟨named, apart⟩ := Prod.mk.inj held
  obtain ⟨s, run, furnished⟩ := (accepted_furnished_iff accepted).mpr
    ⟨of_decide_eq_true named, of_decide_eq_true apart⟩
  exact ⟨app, s, accepted, run, furnished⟩

/-- A field of the name of the ids is accepted, but no table can be made. Two models whose names
differ in letter case only are accepted, but get one table. -/
theorem accepted_without_own_tables :
    tablesFor (textSpec [("Note", ["id"])]) = some (.error "duplicate column name: id") ∧
    tablesFor (textSpec [("Note", ["text"]), ("note", ["text"])]) =
      some (.ok [("Note", ["text"])]) := by
  decide +kernel

end Appwright.Store
