import Appwright.Json.Basic
import Appwright.Proofs.Entries

/-!
# Objects laid over each other

The upper object of a merge keeps every value that is no object, and what it says nothing about is
as the lower one has it. Both are laws about paths of names: a path is followed in the two objects
side by side, and the merge does at each name what it does at the root. A merge with the same upper
object once more finds nothing to change.
-/

namespace Appwright.Json

open List Entries

/-! ## Paths of names -/

/-- The value that names lead to, one object inside another. -/
def at? : Json → List String → Option Json
  | v, [] => some v
  | v, name :: path => (v.get? name).bind (at? · path)

variable {a b v : Json} {lower upper : Members} {name : String} {path : List String}

theorem at?_cons_eq_some_iff : a.at? (name :: path) = some v ↔
    ∃ (members : Members) (w : Json),
      a = .obj members ∧ members.get? name = some w ∧ w.at? path = some v := by
  cases a <;> simp [at?, get?, Option.bind_eq_some_iff]

theorem at?_obj_cons {w : Json} (found : lower.get? name = some w) :
    (obj lower).at? (name :: path) = w.at? path := by
  simp [at?, get?, found]

/-- No two members have one name, in an object and in all objects that names lead to. -/
inductive Distinct : Json → Prop
  | leaf {v : Json} (plain : v.members? = none) : Distinct v
  | obj {members : List (String × Json)} (different : (members.map Prod.fst).Nodup)
      (each : ∀ e ∈ members, Distinct e.2) : Distinct (.obj members)

theorem Distinct.nodup (hd : Distinct (.obj upper)) : (upper.map Prod.fst).Nodup := by
  cases hd with
  | leaf plain => cases plain
  | obj different _ => exact different

theorem Distinct.of_get? (hd : Distinct (.obj upper)) (found : upper.get? name = some v) :
    Distinct v := by
  cases hd with
  | leaf plain => cases plain
  | obj _ each => exact each _ (mem_of_get? found)

theorem exists_of_members?_ne_none (he : a.members? ≠ none) : ∃ members : Members, a = .obj members := by
  cases a with
  | obj members => exact ⟨members, rfl⟩
  | _ => exact absurd rfl he

/-! ## One name -/

theorem merge_of_not_obj (plain : a.members? = none ∨ b.members? = none) : merge a b = b := by
  cases a <;> cases b <;> simp_all [merge, members?]

theorem merge_null (v : Json) : merge .null v = v := merge_of_not_obj (.inl rfl)

/-- A name that the lower object lacks counts as null there, over which everything is laid whole. -/
theorem mergeMembers_cons (lower : Members) (name : String) (v : Json) (rest : Members) :
    mergeMembers lower ((name, v) :: rest) =
      mergeMembers (lower.put name (merge ((lower.get? name).getD .null) v)) rest := by
  rw [mergeMembers]
  cases lower.get? name with
  | none => rw [Option.getD_none, merge_null]
  | some w => rfl

theorem get?_mergeMembers (different : (upper.map Prod.fst).Nodup) (lower : Members) (name : String) :
    (mergeMembers lower upper).get? name =
      ((upper.get? name).map (merge ((lower.get? name).getD .null))).or (lower.get? name) := by
  induction upper generalizing lower with
  | nil => simp [mergeMembers]
  | cons e rest ih =>
    obtain ⟨k, v⟩ := e
    obtain ⟨new, different⟩ := nodup_cons.1 different
    rw [mergeMembers_cons, ih different]
    by_cases here : k = name
    · subst here
      simp [Entries.get?, get?_put_self, get?_eq_none_of_not_mem new]
    · simp [Entries.get?, here, get?_put_of_ne (Ne.symm here)]

/-! ## Paths -/

theorem at?_merge_of_leaf (hd : Distinct b) (found : b.at? path = some v) (plain : v.members? = none)
    (a : Json) : (merge a b).at? path = some v := by
  induction path generalizing a b with
  | nil =>
    cases found
    rw [merge_of_not_obj (.inr plain)]
    rfl
  | cons name path ih =>
    obtain ⟨upper, w, rfl, member, inner⟩ := at?_cons_eq_some_iff.1 found
    by_cases hp : a.members? = none
    · rwa [merge_of_not_obj (.inl hp)]
    · obtain ⟨lower, rfl⟩ := exists_of_members?_ne_none hp
      have merged := get?_mergeMembers hd.nodup lower name
      rw [member] at merged
      rw [merge, at?_obj_cons merged]
      exact ih (hd.of_get? member) inner _

theorem at?_merge_of_absent (hd : Distinct b) {rest : List String}
    (left : a.at? path = some (.obj lower)) (right : b.at? path = some (.obj upper))
    (absent : upper.get? name = none) :
    (merge a b).at? (path ++ name :: rest) = a.at? (path ++ name :: rest) := by
  induction path generalizing a b with
  | nil =>
    cases left
    cases right
    simp [merge, at?, get?, get?_mergeMembers hd.nodup, absent]
  | cons first path ih =>
    obtain ⟨la, va, rfl, fa, ia⟩ := at?_cons_eq_some_iff.1 left
    obtain ⟨lb, vb, rfl, fb, ib⟩ := at?_cons_eq_some_iff.1 right
    have merged := get?_mergeMembers hd.nodup la first
    rw [fa, fb] at merged
    rw [merge, cons_append, at?_obj_cons merged, at?_obj_cons fa]
    exact ih (hd.of_get? fb) ia ib

/-! ## Merging twice -/

theorem mergeMembers_eq_self (settled : ∀ e ∈ upper, ∃ w, lower.get? e.1 = some w ∧ merge w e.2 = w) :
    mergeMembers lower upper = lower := by
  induction upper with
  | nil => rw [mergeMembers]
  | cons e rest ih =>
    obtain ⟨first, settled⟩ := forall_mem_cons.1 settled
    obtain ⟨w, found, same⟩ := first
    rw [mergeMembers_cons, found, Option.getD_some, same, put_eq_self found, ih settled]

theorem merge_merge (hd : Distinct b) (a : Json) : merge (merge a b) b = merge a b := by
  induction hd generalizing a with
  | leaf plain => rw [merge_of_not_obj (.inr plain), merge_of_not_obj (.inr plain)]
  | @obj upper different each ih =>
    -- Laid over itself, a member stays as it is: it was laid over null before.
    have once (e : String × Json) (mem : e ∈ upper) : merge e.2 e.2 = e.2 := by
      simpa only [merge_null] using ih e mem .null
    by_cases plain : a.members? = none
    · rw [merge_of_not_obj (.inl plain), merge]
      refine congrArg obj (mergeMembers_eq_self fun e mem => ?_)
      exact ⟨e.2, get?_of_mem different mem, once e mem⟩
    · obtain ⟨lower, rfl⟩ := exists_of_members?_ne_none plain
      rw [merge, merge]
      refine congrArg obj (mergeMembers_eq_self fun e mem => ?_)
      refine ⟨merge ((lower.get? e.1).getD .null) e.2, ?_, ih e mem _⟩
      rw [get?_mergeMembers different, get?_of_mem different mem]
      rfl

/-- Merging loses nothing. What the upper object has and is no object is in the merge; where the
upper object, side by side with the lower one, has no further name, the merge has what the lower one
has; and laying the upper object on once more changes nothing. -/
theorem merge_loses_nothing (a b : Members) (distinct : Distinct (.obj b)) :
    (∀ (path : List String) (v : Json), (Json.obj b).at? path = some v → v.members? = none →
      (merge (.obj a) (.obj b)).at? path = some v) ∧
    (∀ (path : List String) (name : String) (rest : List String) (lower upper : Members),
      (Json.obj a).at? path = some (.obj lower) → (Json.obj b).at? path = some (.obj upper) →
      Entries.get? name upper = none →
      (merge (.obj a) (.obj b)).at? (path ++ name :: rest) = (Json.obj a).at? (path ++ name :: rest)) ∧
    merge (merge (.obj a) (.obj b)) (.obj b) = merge (.obj a) (.obj b) := by
  refine ⟨fun path v found plain => ?_, fun path name rest lower upper left right absent => ?_, ?_⟩
  · exact at?_merge_of_leaf distinct found plain (.obj a)
  · exact at?_merge_of_absent distinct left right absent
  · exact merge_merge distinct (.obj a)

def brand : Members := [("brand", .obj [("50", .str "#fff"), ("400", .str "#f60")])]

def redBrand : Members := [("brand", .obj [("400", .str "#d00")])]

theorem redBrand_over_brand :
    Distinct (.obj redBrand) ∧
    (merge (.obj brand) (.obj redBrand)).at? ["brand", "400"] = some (.str "#d00") ∧
    (merge (.obj brand) (.obj redBrand)).at? ["brand", "50"] = some (.str "#fff") ∧
    merge (merge (.obj brand) (.obj redBrand)) (.obj redBrand) =
      merge (.obj brand) (.obj redBrand) := by
  have distinct : Distinct (.obj redBrand) := by
    refine .obj (by decide) (forall_mem_singleton.2 ?_)
    exact .obj (by decide) (forall_mem_singleton.2 (.leaf rfl))
  obtain ⟨kept, lacking, twice⟩ := merge_loses_nothing brand redBrand distinct
  refine ⟨distinct, ?_, ?_, twice⟩
  · exact kept ["brand", "400"] _ rfl rfl
  · exact lacking ["brand"] "50" [] _ _ rfl rfl rfl

end Appwright.Json
