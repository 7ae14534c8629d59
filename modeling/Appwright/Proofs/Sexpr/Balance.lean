import Appwright.Sexpr.Basic
import Mathlib.Data.List.Basic

/-!
# Balanced tokens

Tokens are forms written out exactly if their parentheses are balanced: no prefix closes more lists
than it opens, and all of them are closed at the end. Then the forms are the ones whose tokens these
are. Otherwise the message says which half of the condition fails (`assemble_iff_balanced`).

The assembler holds one list of forms for each list that is open, so their number is the depth at
which the rest of the tokens starts. Each statement is proved for any depth, along the tokens.
-/

namespace Appwright

open List Nat

namespace Sexpr

def Token.isOpening : Token → Bool
  | opening => true
  | _ => false

def Token.isClosing : Token → Bool
  | closing => true
  | _ => false

def opens (tokens : List Token) : Nat :=
  tokens.countP Token.isOpening

def closes (tokens : List Token) : Nat :=
  tokens.countP Token.isClosing

def OverclosesFrom (depth : Nat) (tokens : List Token) : Prop :=
  ∃ p, p <+: tokens ∧ depth + opens p < closes p

structure Balanced (tokens : List Token) : Prop where
  covered : ∀ p, p <+: tokens → closes p ≤ opens p
  settled : opens tokens = closes tokens

/-! ## One token -/

@[simp] theorem opens_cons (t : Token) (ts : List Token) :
    opens (t :: ts) = opens ts + if t.isOpening then 1 else 0 :=
  countP_cons

@[simp] theorem closes_cons (t : Token) (ts : List Token) :
    closes (t :: ts) = closes ts + if t.isClosing then 1 else 0 :=
  countP_cons

theorem not_overclosesFrom_nil (depth : Nat) : ¬ OverclosesFrom depth [] := by
  rintro ⟨p, pre, he⟩
  rw [prefix_nil.1 pre] at he
  exact absurd he (not_lt_zero _)

theorem overclosesFrom_cons {t : Token} {before post : Nat}
    (hm : post + (if t.isClosing then 1 else 0) = before + if t.isOpening then 1 else 0)
    (ts : List Token) : OverclosesFrom before (t :: ts) ↔ OverclosesFrom post ts := by
  constructor
  · rintro ⟨p, pre, he⟩
    rcases prefix_cons_iff.1 pre with rfl | ⟨q, rfl, hs⟩
    · exact absurd he (not_lt_zero _)
    · refine ⟨q, hs, ?_⟩
      rw [opens_cons, closes_cons] at he
      omega
  · rintro ⟨q, pre, he⟩
    refine ⟨t :: q, prefix_cons_iff.2 (.inr ⟨q, rfl, pre⟩), ?_⟩
    rw [opens_cons, closes_cons]
    omega

variable {tokens : List Token} (ts : List Token)

theorem overclosesFrom_zero_closing : OverclosesFrom 0 (.closing :: ts) :=
  ⟨[.closing], ⟨ts, rfl⟩, by decide⟩

theorem overclosesFrom_zero : OverclosesFrom 0 tokens ↔ ∃ p, p <+: tokens ∧ opens p < closes p := by
  simp only [OverclosesFrom, Nat.zero_add]

theorem not_overclosesFrom_zero : ¬ OverclosesFrom 0 tokens ↔ ∀ p, p <+: tokens → closes p ≤ opens p := by
  simp only [overclosesFrom_zero, not_exists, not_and, Nat.not_lt]

theorem balanced_iff : Balanced tokens ↔ ¬ OverclosesFrom 0 tokens ∧ opens tokens = closes tokens := by
  rw [not_overclosesFrom_zero]
  exact ⟨fun h => ⟨h.covered, h.settled⟩, fun h => ⟨h.1, h.2⟩⟩

end Sexpr

namespace Form

open Sexpr

theorem flattenAll_append (fs gs : List Form) : flattenAll (fs ++ gs) = flattenAll fs ++ flattenAll gs := by
  induction fs with
  | nil => rfl
  | cons f fs ih => rw [cons_append, flattenAll, flattenAll, ih, append_assoc]

theorem flattenAll_reverse_cons (f : Form) (fs : List Form) :
    flattenAll (f :: fs).reverse = flattenAll fs.reverse ++ flatten f := by
  rw [reverse_cons, flattenAll_append, flattenAll, flattenAll, append_nil]

/-- The tokens that the assembler has taken in, read off what it holds. -/
def unfinished (current : List Form) : List (List Form) → List Token
  | [] => flattenAll current.reverse
  | around :: outer => unfinished around outer ++ .opening :: flattenAll current.reverse

theorem unfinished_cons (f : Form) (cur : List Form) (out : List (List Form)) :
    unfinished (f :: cur) out = unfinished cur out ++ flatten f := by
  cases out with
  | nil => exact flattenAll_reverse_cons f cur
  | cons around out =>
    rw [unfinished, unfinished, flattenAll_reverse_cons, append_assoc, cons_append]

/-! ## All tokens -/

theorem flattenAll_of_assembleFrom {tokens : List Token} {cur fs : List Form}
    {out : List (List Form)} (h : assembleFrom cur out tokens = .ok fs) :
    flattenAll fs = unfinished cur out ++ tokens := by
  induction tokens generalizing cur out with
  | nil =>
    cases out with
    | nil =>
      cases h
      exact (append_nil _).symm
    | cons around out => cases h
  | cons tok tokens ih =>
    cases tok with
    | opening => rw [ih h, unfinished, append_assoc]; rfl
    | leaf v => rw [ih h, unfinished_cons, append_assoc]; rfl
    | closing =>
      cases out with
      | nil => cases h
      | cons around out =>
        rw [ih h, unfinished_cons, unfinished, flatten]
        simp only [append_assoc, cons_append, nil_append]

/-- How assembling ends is decided by the depth and the rest of the tokens alone. -/
theorem assembleFrom_ends (tokens : List Token) (cur : List Form) (out : List (List Form)) :
    (OverclosesFrom out.length tokens ∧ assembleFrom cur out tokens = .error .unexpectedClosing) ∨
      (¬ OverclosesFrom out.length tokens ∧ out.length + opens tokens ≠ closes tokens ∧
        assembleFrom cur out tokens = .error .missingClosing) ∨
      (¬ OverclosesFrom out.length tokens ∧ out.length + opens tokens = closes tokens ∧
        ∃ fs, assembleFrom cur out tokens = .ok fs) := by
  induction tokens generalizing cur out with
  | nil =>
    cases out with
    | nil => exact .inr (.inr ⟨not_overclosesFrom_nil _, rfl, _, rfl⟩)
    | cons around out =>
      exact .inr (.inl ⟨not_overclosesFrom_nil _, succ_ne_zero _, rfl⟩)
  | cons tok tokens ih =>
    -- The depth after the token, and the counts of the tokens after it, make up for each other.
    have hs (around : List (List Form)) (next : List Form)
        (hm : around.length + (if tok.isClosing then 1 else 0) =
          out.length + if tok.isOpening then 1 else 0)
        (hsa : assembleFrom cur out (tok :: tokens) = assembleFrom next around tokens) := by
      have hc : out.length + opens (tok :: tokens) = closes (tok :: tokens) ↔
          around.length + opens tokens = closes tokens := by
        rw [opens_cons, closes_cons]
        omega
      have he := ih next around
      rw [← overclosesFrom_cons hm, ← hsa, ne_eq, ← hc] at he
      exact he
    cases tok with
    | opening => exact hs (cur :: out) [] rfl rfl
    | leaf v => exact hs out (.leaf v :: cur) rfl rfl
    | closing =>
      cases out with
      | nil => exact .inl ⟨overclosesFrom_zero_closing tokens, rfl⟩
      | cons around out => exact hs out (.list cur.reverse :: around) rfl rfl

theorem assemble_ends (tokens : List Token) :
    (OverclosesFrom 0 tokens ∧ assemble tokens = .error .unexpectedClosing) ∨
      (¬ OverclosesFrom 0 tokens ∧ opens tokens ≠ closes tokens ∧
        assemble tokens = .error .missingClosing) ∨
      (¬ OverclosesFrom 0 tokens ∧ opens tokens = closes tokens ∧ ∃ fs, assemble tokens = .ok fs) := by
  simpa only [assemble, length_nil, Nat.zero_add] using assembleFrom_ends tokens [] []

/-- Tokens are assembled exactly if they are balanced, and the forms are then those that are written
with these tokens. Where they are not, the message tells whether a prefix closes too much or lists
are left open. -/
theorem assemble_iff_balanced (tokens : List Token) :
    ((∃ forms, assemble tokens = .ok forms) ↔ Balanced tokens) ∧
      (∀ forms, assemble tokens = .ok forms → flattenAll forms = tokens) ∧
      ((∃ e, assemble tokens = .error e ∧ e.message = "Unexpected ')' ") ↔
        ∃ p, p <+: tokens ∧ opens p < closes p) ∧
      ((∃ e, assemble tokens = .error e ∧ e.message = "Missing closing parenthesis") ↔
        (∀ p, p <+: tokens → closes p ≤ opens p) ∧ opens tokens ≠ closes tokens) := by
  have writes (forms : List Form) (h : assemble tokens = .ok forms) : flattenAll forms = tokens :=
    flattenAll_of_assembleFrom h
  rw [balanced_iff, ← overclosesFrom_zero, ← not_overclosesFrom_zero]
  rcases assemble_ends tokens with ⟨excess, ended⟩ | ⟨within, left, ended⟩ |
    ⟨within, settled, forms, ended⟩
  · refine ⟨?_, writes, ?_, ?_⟩ <;> simp [ended, excess, BalanceError.message]
  · refine ⟨?_, writes, ?_, ?_⟩ <;> simp [ended, within, left, BalanceError.message]
  · refine ⟨?_, writes, ?_, ?_⟩ <;> simp [ended, within, settled]

end Form

end Appwright
