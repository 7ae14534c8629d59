import Appwright.Server.Basic
import Mathlib.Algebra.Order.Ring.Rat
import Mathlib.Tactic.Linarith

/-!
# Rate limits over time

A limiter counts in windows that start with a call, so an interval as long as a window can meet two of
them, and twice the limit is allowed in it. It meets no third, since windows of a key start at least
sixty seconds apart (`limiter_bounds`).

The calls of a key are answered as if there were no others (`answers_eq_keyed`). Times are numbers of
an ordered field, so nothing is rounded.
-/

namespace Appwright.Server.Limiter

variable {τ : Type} [Field τ] [LinearOrder τ] {lim : Nat} {last : Option (Window τ)}
  {inside : τ → Bool}

/-! ## Calls -/

/-- The answers to calls, each with its key and time. -/
def answers (l : Limiter τ) : List (String × τ) → List (String × τ × Bool)
  | [] => []
  | (key, now) :: calls => (key, now, (l.allow key now).1) :: answers (l.allow key now).2 calls

/-- The answers to the calls of a key, each with its time. -/
def answersOf (limit : Int) (key : String) (calls : List (String × τ)) : List (τ × Bool) :=
  ((answers (.ofSetting limit) calls).filter fun a => a.1 == key).map Prod.snd

/-- The answers to the calls of one key, after its last window. -/
def keyed (limit : Nat) (last : Option (Window τ)) : List τ → List (τ × Bool)
  | [] => []
  | now :: later =>
    (now, (nextWindow last now).calls ≤ limit) :: keyed limit (some (nextWindow last now)) later

theorem answers_eq_keyed (key : String) (l : Limiter τ) (calls : List (String × τ)) :
    ((answers l calls).filter fun a => a.1 == key).map Prod.snd =
      keyed l.limit (l.windows.get? key) ((calls.filter fun c => c.1 == key).map Prod.snd) := by
  induction calls generalizing l with
  | nil => rfl
  | cons call calls ih =>
    obtain ⟨name, now⟩ := call
    have hl : (l.allow name now).2.limit = l.limit := rfl
    by_cases hs : name = key
    · subst hs
      have hw : (l.allow name now).2.windows.get? name =
          some (nextWindow (l.windows.get? name) now) := Entries.get?_put_self _ _ _
      simp only [answers, List.filter_cons, beq_self_eq_true, if_true, List.map_cons, ih, hl, hw]
      rfl
    · have hw : (l.allow name now).2.windows.get? key = l.windows.get? key :=
        Entries.get?_put_of_ne (Ne.symm hs) _ _
      simp only [answers, List.filter_cons, beq_eq_false_iff_ne.2 hs, Bool.false_eq_true, if_false,
        ih, hl, hw]

theorem answersOf_eq_keyed (limit : Int) (key : String) (calls : List (String × τ)) :
    answersOf limit key calls =
      keyed (max 1 limit.toNat) none ((calls.filter fun c => c.1 == key).map Prod.snd) :=
  answers_eq_keyed key _ calls

/-- How many calls are allowed at times of some kind. -/
def passes (inside : τ → Bool) (limit : Nat) (last : Option (Window τ)) (times : List τ) : Nat :=
  (keyed limit last times).countP fun a => a.2 && inside a.1

theorem passes_cons (now : τ) (times : List τ) : passes inside lim last (now :: times) =
    passes inside lim (some (nextWindow last now)) times +
      if (nextWindow last now).calls ≤ lim ∧ inside now then 1 else 0 := by
  rw [passes, keyed, List.countP_cons]
  simp [passes]

theorem passes_eq_zero {times : List τ} (none : ∀ t ∈ times, inside t = false) :
    passes inside lim last times = 0 := by
  induction times generalizing last with
  | nil => rfl
  | cons now times ih =>
    rw [List.forall_mem_cons] at none
    rw [passes_cons, ih none.2]
    simp [none.1]

/-! ## Windows -/

variable [IsStrictOrderedRing τ]

theorem nextWindow_cases (w : Window τ) (now : τ) :
    (now < w.start + 60 ∧ nextWindow (some w) now = ⟨w.start, w.calls + 1⟩) ∨
    (w.start + 60 ≤ now ∧ nextWindow (some w) now = ⟨now, 1⟩) := by
  rw [nextWindow]
  split
  next hp => exact .inr ⟨by linarith, rfl⟩
  next hd => exact .inl ⟨by linarith, rfl⟩

theorem calls_nextWindow_le (last : Option (Window τ)) (now : τ) :
    (nextWindow last now).calls ≤ last.elim 0 Window.calls + 1 := by
  cases last with
  | none => exact Nat.le_refl 1
  | some w =>
    rcases nextWindow_cases w now with ⟨-, next⟩ | ⟨-, next⟩
    · rw [next]
      exact Nat.le_refl _
    · rw [next]
      exact Nat.le_add_left 1 _

theorem keyed_take {n : Nat} (few : last.elim 0 Window.calls + n ≤ lim) (times : List τ) :
    ∀ a ∈ (keyed lim last times).take n, a.2 := by
  induction times generalizing last n with
  | nil => simp [keyed]
  | cons now times ih =>
    cases n with
    | zero => simp
    | succ n =>
      have hc := calls_nextWindow_le last now
      rw [keyed, List.take_succ_cons, List.forall_mem_cons]
      exact ⟨by simpa using by omega, ih (by simpa using by omega)⟩

/-! ## Intervals -/

section Passes

variable (hb : ∀ x y, inside x = true → inside y = true → y < x + 60) (some : 1 ≤ lim)
  {times : List τ} (ho : times.Pairwise (· ≤ ·))
include hb some ho

/-- What is allowed yet, by where the times of the kind began: at any time in this window or later,
in this window, or before it. A window has the calls that it lacks yet to the limit. -/
theorem passes_le (w : Window τ) : passes inside lim (.some w) times ≤ 2 * lim ∧ ∀ x, inside x →
      (x < w.start + 60 → passes inside lim (.some w) times ≤ lim - w.calls + lim) ∧
      (x < w.start → passes inside lim (.some w) times ≤ lim - w.calls) := by
  induction times generalizing w with
  | nil => simp [passes, keyed]
  | cons now times ih =>
    obtain ⟨hl, ho⟩ := List.pairwise_cons.1 ho
    rw [passes_cons]
    rcases nextWindow_cases w now with ⟨hd, next⟩ | ⟨hpa, next⟩
    · obtain ⟨all, hs⟩ := ih ho ⟨w.start, w.calls + 1⟩
      rw [next]
      dsimp only at hs ⊢
      refine ⟨?_, fun x met => ⟨fun hc => ?_, fun hl => ?_⟩⟩
      · split
        next hp =>
          have first := (hs now hp.2).1 hd
          omega
        next => exact all
      · have first := (hs x met).1 hc
        split <;> omega
      · have first := (hs x met).2 hl
        split <;> omega
    · obtain ⟨all, hs⟩ := ih ho ⟨now, 1⟩
      rw [next]
      dsimp only at hs ⊢
      refine ⟨?_, fun x met => ⟨fun hc => ?_, fun _ => ?_⟩⟩
      · split
        next hp =>
          have first := (hs now hp.2).1 (by linarith)
          omega
        next => exact all
      · have first := (hs x met).2 (by linarith)
        split <;> omega
      · -- The window after this one is too late.
        have hpa (t : τ) (hr : now ≤ t) : inside t = false := by
          by_contra hf
          have := hb x t met (by simpa using hf)
          linarith
        rw [passes_eq_zero fun t mem => hpa t (hl t mem)]
        simp [hpa now le_rfl]

theorem passes_none_le : passes inside lim none times ≤ 2 * lim := by
  cases times with
  | nil => exact Nat.zero_le _
  | cons now times =>
    have first : nextWindow none now = ⟨now, 1⟩ := rfl
    obtain ⟨all, hs⟩ := passes_le hb some ho.of_cons ⟨now, 1⟩
    rw [passes_cons, first]
    split
    next hp =>
      have first := (hs now hp.2).1 (by linarith)
      dsimp only at first
      omega
    next => exact all

end Passes

/-- The intervals of sixty seconds from a time that have one of their ends. -/
def minutes (a : τ) : List (τ → Bool) :=
  [fun t => a ≤ t && t < a + 60, fun t => a < t && t ≤ a + 60]

/-- In sixty seconds a key is allowed at most twice the limit, its first calls up to the limit are all
allowed, and calls of other keys do not matter. -/
theorem limiter_bounds (limit : Int) (key : String) (calls : List (String × τ)) :
    ((calls.map Prod.snd).Pairwise (· ≤ ·) → ∀ a : τ, ∀ inside ∈ minutes a,
      ((answersOf limit key calls).countP fun p => p.2 && inside p.1 : Int) ≤ 2 * max 1 limit) ∧
    (∀ p ∈ (answersOf limit key calls).take (max 1 limit).toNat, p.2 = true) ∧
    ∀ others : List (String × τ),
      (others.filter fun c => c.1 == key) = (calls.filter fun c => c.1 == key) →
        answersOf limit key others = answersOf limit key calls := by
  simp only [answersOf_eq_keyed]
  refine ⟨fun ordered a inside kind => ?_, keyed_take (by simpa using by omega) _, ?_⟩
  · have brief : ∀ x y, inside x = true → inside y = true → y < x + 60 := by
      intro x y hx hy
      simp only [minutes, List.mem_cons, List.not_mem_nil, or_false] at kind
      rcases kind with rfl | rfl <;>
        simp only [Bool.and_eq_true, decide_eq_true_eq] at hx hy <;> linarith
    have bound := passes_none_le brief (Nat.le_max_left 1 limit.toNat)
      (ordered.sublist (List.filter_sublist.map Prod.snd) :
        ((calls.filter fun c => c.1 == key).map Prod.snd).Pairwise (· ≤ ·))
    rw [passes] at bound
    omega
  · intro others same
    rw [same]

theorem limiter_bounds_one : [(0 : ℚ), 59, 60].Pairwise (· ≤ ·) ∧
    ((answersOf 1 "a" [("a", (0 : ℚ)), ("b", 59), ("a", 60)]).countP fun p =>
      p.2 && (0 < p.1 && p.1 ≤ 0 + 60) : Int) ≤ 2 * max 1 1 := by
  have ordered : [(0 : ℚ), 59, 60].Pairwise (· ≤ ·) := by decide
  exact ⟨ordered, (limiter_bounds 1 "a" _).1 ordered 0 _ (List.mem_cons_of_mem _ List.mem_cons_self)⟩

end Appwright.Server.Limiter
