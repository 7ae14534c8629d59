import Appwright.Proofs.Condition.Flaws
import Appwright.Proofs.Text

/-!
# Paths that are joined

The segments of two paths with a dot between them are those of the first and then those of the
second, so a joined path can be followed in two goes, from the value that the first part leads to
(`lookup_joined`). Where a path leads is told step by step (`reach`): to a member or an item that is
there, and to null as soon as there is none. Following it gives that value unless it raises, which
happens at an array for digits that write no number.
-/

namespace Appwright

open List

namespace Text

theorem dropWhile_of_trim {s : String} (ht : trim s = s) :
    s.toList.dropWhile isBlank = s.toList ∧ dropLastWhile isBlank s.toList = s.toList := by
  have same : dropLastWhile isBlank (s.toList.dropWhile isBlank) = s.toList := by
    have := congrArg String.toList ht
    rwa [trim, dropEnds, String.toList_ofList] at this
  have front : s.toList.dropWhile isBlank = s.toList := by
    obtain ⟨tail, hp, -⟩ := dropLastWhile_parts isBlank (s.toList.dropWhile isBlank)
    rw [same] at hp
    refine (dropWhile_sublist isBlank).antisymm ?_
    rw [hp]
    exact sublist_append_left _ _
  exact ⟨front, by rwa [front] at same⟩

end Text

namespace Json

open Text

variable {p q segment : String} {v w : Json} {context : Members} {segments : List String}

/-! ## Segments -/

theorem trim_joined (hp : trim p = p) (hq : trim q = q) : trim (p ++ "." ++ q) = p ++ "." ++ q := by
  have dot : isBlank '.' = false := by decide
  have chars : (p ++ "." ++ q).toList = p.toList ++ '.' :: q.toList := by simp
  rw [trim, dropEnds, chars, dropWhile_append_cons dot, dropLastWhile_append_cons dot,
    (dropWhile_of_trim hp).1, (dropWhile_of_trim hq).2, ← chars, String.ofList_toList]

theorem pathSegments_joined (hp : trim p = p) (hq : trim q = q) :
    pathSegments (p ++ "." ++ q) = pathSegments p ++ pathSegments q := by
  have chars : (p ++ "." ++ q).toList = p.toList ++ '.' :: q.toList := by simp
  unfold pathSegments splitChar
  rw [trim_joined hp hq, hp, hq, chars, splitAtElem_append_sep, map_append, filter_append]

theorem follow_append (v : Json) (xs ys : List String) :
    follow v (xs ++ ys) = (follow v xs).bind fun w => follow w ys := by
  induction xs generalizing v with
  | nil => rfl
  | cons segment xs ih =>
    rw [cons_append, follow, follow]
    cases step v segment with
    | error e => rfl
    | ok w => exact ih w

theorem lookup_eq_follow {path : String} (named : pathSegments path ≠ []) :
    lookup path context = follow (.obj context) (pathSegments path) := by
  obtain ⟨root, rest, hs⟩ := exists_cons_of_ne_nil named
  rw [lookup, hs]
  rfl

theorem lookup_append (hp : trim p = p) (hq : trim q = q) (named : pathSegments p ≠ []) :
    lookup (p ++ "." ++ q) context =
      (lookup p context).bind fun v => lookup ("x." ++ q) [("x", v)] := by
  have joined := pathSegments_joined hp hq
  have again : pathSegments ("x." ++ q) = "x" :: pathSegments q := by
    rw [show "x." = "x" ++ "." by decide, pathSegments_joined (by decide) hq,
      show pathSegments "x" = ["x"] by decide, singleton_append]
  rw [lookup_eq_follow (by simp [joined, named]), joined, follow_append, ← lookup_eq_follow named]
  refine congrArg _ (funext fun v => ?_)
  rw [lookup_eq_follow (by simp [again]), again]
  simp [follow, step, Entries.get?]

/-! ## Where a path leads -/

/-- The step that can be taken, if any: to a member of an object, or to the item of an array at the
position that digits write. -/
def step? : Json → String → Option Json
  | .obj members, name => Entries.get? name members
  | .arr items, segment =>
    if segment.toList.all isDigit then
      (Decimal.readInt segment).toOption.bind fun n => items[n.toNat]?
    else none
  | _, _ => none

/-- Where segments lead. A step that cannot be taken leads to null, from where none can. -/
def reach : Json → List String → Json
  | v, [] => v
  | v, segment :: rest => reach ((step? v segment).getD .null) rest

theorem eq_of_step (filled : segment.isEmpty = false) (hs : step v segment = .ok w) :
    w = (step? v segment).getD .null := by
  cases v with
  | arr items =>
    rw [step, filled] at hs
    rw [step?]
    grind [Except.toOption]
  | _ =>
    cases hs
    rfl

theorem eq_reach_of_follow (filled : ∀ s ∈ segments, s.isEmpty = false)
    (hf : follow v segments = .ok w) : w = reach v segments := by
  induction segments generalizing v with
  | nil =>
    cases hf
    rfl
  | cons segment rest ih =>
    obtain ⟨here, filled⟩ := forall_mem_cons.1 filled
    rw [follow] at hf
    cases hs : step v segment with
    | error e =>
      rw [hs] at hf
      cases hf
    | ok u =>
      rw [hs] at hf
      rw [ih filled hf, eq_of_step here hs, reach]

end Json

namespace Condition

open Json Text

theorem exists_lookup_iff {path : String} {context : Members} :
    (∃ v, Json.lookup path context = .ok v) ↔ ¬ Unreadable path context := by
  rw [← exists_valueAt_iff, valueAt]
  cases Json.lookup path context <;> simp [Except.mapError]

/-- A joined path is followed in two goes, from the value that the first part leads to, and has the
same outcome, errors included. It gives what its segments lead to unless it comes to an array with
digits that write no number. -/
theorem lookup_joined {p q : String} (context : Members) (bare : trim p = p) (bare' : trim q = q)
    (named : pathSegments p ≠ []) :
    Json.lookup (p ++ "." ++ q) context =
      ((Json.lookup p context).bind fun v => Json.lookup ("x." ++ q) [("x", v)]) ∧
    (Json.lookup (p ++ "." ++ q) context =
      .ok (reach (.obj context) (pathSegments p ++ pathSegments q)) ↔
        ¬ Unreadable (p ++ "." ++ q) context) := by
  refine ⟨lookup_append bare bare' named, fun found => exists_lookup_iff.1 ⟨_, found⟩, fun readable => ?_⟩
  obtain ⟨w, found⟩ := exists_lookup_iff.2 readable
  have joined := pathSegments_joined bare bare'
  rw [found, ← joined]
  rw [lookup_eq_follow (by simp [joined, named])] at found
  refine congrArg _ (eq_reach_of_follow (fun s mem => ?_) found)
  simpa using (mem_filter.1 mem).2

def adaRows : Members := [("rows", .arr [.obj [("name", .str "Ada")]])]

theorem first_row_joined :
    trim "rows..0" = "rows..0" ∧ trim "name" = "name" ∧
    pathSegments "rows..0" = ["rows", "0"] ∧
    ((Json.lookup "rows..0" adaRows).bind fun v => Json.lookup "x.name" [("x", v)]) =
      .ok (.str "Ada") := by
  have bare : trim "rows..0" = "rows..0" := by decide +kernel
  have bare' : trim "name" = "name" := by decide +kernel
  have segments : pathSegments "rows..0" = ["rows", "0"] := by decide +kernel
  refine ⟨bare, bare', segments, ?_⟩
  exact (lookup_joined adaRows bare bare' (by simp [segments])).1.symm

/-- A raised digit is a digit but writes no number: the path leads to null, and to look it up is an
error. -/
theorem raised_digit_raises :
    reach (.obj [("row", .arr [.int 1])]) ["row", "²"] = .null ∧
    Json.lookup "row.²" [("row", .arr [.int 1])] = .error (.invalid "²") :=
  ⟨rfl, rfl⟩

end Condition

end Appwright
