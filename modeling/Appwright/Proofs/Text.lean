import Appwright.Text.Basic
import Mathlib.Data.List.Basic
import Mathlib.Data.List.TakeWhile

/-!
# Blanks and identifiers in texts

Letters and digits are no blanks, and only blanks are trimmed: of an identifier at most a line feed
at its end.
-/

namespace Appwright.Text

open List

variable {α : Type} {c : Char} {p : α → Bool} {cs : List Char} {sep : α}

theorem dropLastWhile_append (xs : List α) {tail : List α}
    (h : ∀ x ∈ tail, p x) : dropLastWhile p (xs ++ tail) = dropLastWhile p xs := by
  unfold dropLastWhile
  rw [reverse_append, dropWhile_append_of_pos fun x hx => h x (mem_reverse.1 hx)]

theorem dropLastWhile_parts (p : α → Bool) (xs : List α) :
    ∃ tail, xs = dropLastWhile p xs ++ tail ∧ ∀ x ∈ tail, p x := by
  refine ⟨(xs.reverse.takeWhile p).reverse, ?_, fun x hx => ?_⟩
  · unfold dropLastWhile
    rw [← reverse_append, takeWhile_append_dropWhile, reverse_reverse]
  · exact mem_takeWhile_imp (mem_reverse.1 hx)

theorem dropWhile_append_cons {x : α} (hs : p x = false) (pre rest : List α) :
    (pre ++ x :: rest).dropWhile p = pre.dropWhile p ++ x :: rest := by
  induction pre with
  | nil =>
    rw [nil_append, dropWhile_cons_of_neg (by simp [hs])]
    rfl
  | cons c pre ih => cases h : p c <;> simp [h, ih]

theorem dropLastWhile_append_cons {x : α} (hs : p x = false) (pre rest : List α) :
    dropLastWhile p (pre ++ x :: rest) = pre ++ x :: dropLastWhile p rest := by
  have he : (pre ++ x :: rest).reverse = rest.reverse ++ x :: pre.reverse := by simp
  rw [dropLastWhile, he, dropWhile_append_cons hs, dropLastWhile]
  simp

theorem dropLastWhile_append_left {xs : List α} (hs : ∀ x ∈ xs, p x = false)
    (tail : List α) : dropLastWhile p (xs ++ tail) = xs ++ dropLastWhile p tail := by
  rcases eq_nil_or_concat xs with rfl | ⟨pre, x, rfl⟩
  · rfl
  · have hst := dropLastWhile_append_cons (hs x (by simp)) pre tail
    simpa using hst

theorem trim_of_solid (hs : ∀ c ∈ cs, isBlank c = false) :
    trim (String.ofList cs) = String.ofList cs := by
  have hf : cs.dropWhile isBlank = cs := by
    cases cs with
    | nil => rfl
    | cons c cs => exact dropWhile_cons_of_neg (by simp [hs c])
  have hb := dropLastWhile_append_left hs []
  rw [append_nil] at hb
  rw [trim, dropEnds, String.toList_ofList, hf, hb]
  simp [dropLastWhile]

theorem trim_parts (s : String) : ∃ lead tail, s.toList = lead ++ ((trim s).toList ++ tail) ∧
    (∀ c ∈ lead, isBlank c) ∧ ∀ c ∈ tail, isBlank c := by
  obtain ⟨tail, hp, hb⟩ := dropLastWhile_parts isBlank (s.toList.dropWhile isBlank)
  refine ⟨s.toList.takeWhile isBlank, tail, ?_, fun c hc => mem_takeWhile_imp hc, hb⟩
  rw [trim, dropEnds, String.toList_ofList, ← hp, takeWhile_append_dropWhile]

/-! ## Pieces -/

theorem splitAtElem_ne_nil [BEq α] (sep : α) (xs : List α) : splitAtElem sep xs ≠ [] := by
  cases xs with
  | nil => exact cons_ne_nil _ _
  | cons x xs =>
    rw [splitAtElem]
    split
    · exact cons_ne_nil _ _
    · split <;> exact cons_ne_nil _ _

/-- The pieces on both sides of a separator are cut apart on their own. -/
theorem splitAtElem_append_sep [BEq α] [LawfulBEq α] (sep : α) (xs ys : List α) :
    splitAtElem sep (xs ++ sep :: ys) = splitAtElem sep xs ++ splitAtElem sep ys := by
  induction xs with
  | nil => simp [splitAtElem]
  | cons x xs ih =>
    rw [cons_append, splitAtElem, splitAtElem, ih]
    split
    · rfl
    · obtain ⟨piece, rest, hp⟩ := exists_cons_of_ne_nil (splitAtElem_ne_nil sep xs)
      rw [hp]
      rfl

theorem splitAtElem_of_not_mem [BEq α] [LawfulBEq α] {p : List α}
    (ha : sep ∉ p) : splitAtElem sep p = [p] := by
  induction p with
  | nil => rfl
  | cons x p ih =>
    rw [mem_cons, not_or] at ha
    have ho : (x == sep) = false := beq_false_of_ne fun hs => ha.1 hs.symm
    rw [splitAtElem, ho, ih ha.2]
    rfl

theorem splitAtElem_append [BEq α] [LawfulBEq α] {p : List α} (ha : sep ∉ p) (rest : List α) :
    splitAtElem sep (p ++ sep :: rest) = p :: splitAtElem sep rest := by
  rw [splitAtElem_append_sep, splitAtElem_of_not_mem ha, singleton_append]

theorem not_mem_of_mem_splitAtElem [BEq α] [LawfulBEq α] {xs p : List α}
    (h : p ∈ splitAtElem sep xs) : sep ∉ p := by
  induction xs generalizing p with
  | nil =>
    rw [mem_singleton.1 h]
    exact not_mem_nil
  | cons x xs ih =>
    rw [splitAtElem] at h
    split at h
    · rcases mem_cons.1 h with rfl | h
      · exact not_mem_nil
      · exact ih h
    next ho =>
      have hf : sep ≠ x := fun hs => ho (beq_iff_eq.2 hs.symm)
      split at h
      · rw [mem_singleton.1 h]
        simpa using hf
      next first rest hp =>
        rw [hp] at ih
        rcases mem_cons.1 h with rfl | h
        · simpa [hf] using ih mem_cons_self
        · exact ih (mem_cons_of_mem _ h)

theorem mem_intercalate {sep c : Char} {ws : List (List Char)}
    (mem : c ∈ [sep].intercalate ws) : c = sep ∨ ∃ word ∈ ws, c ∈ word := by
  induction ws with
  | nil => exact absurd mem not_mem_nil
  | cons word ws ih =>
    cases ws with
    | nil =>
      rw [intercalate_singleton] at mem
      exact .inr ⟨word, mem_cons_self, mem⟩
    | cons next ws =>
      rw [intercalate_cons_cons, mem_append, mem_append, mem_singleton] at mem
      rcases mem with (here | rfl) | hl
      · exact .inr ⟨word, mem_cons_self, here⟩
      · exact .inl rfl
      · exact (ih hl).imp_right (by rintro ⟨w, hw, hi⟩; exact ⟨w, mem_cons_of_mem _ hw, hi⟩)

theorem eq_append_of_after? [BEq α] [LawfulBEq α] {head xs rest : List α}
    (h : after? head xs = some rest) : xs = head ++ rest := by
  induction head generalizing xs with
  | nil =>
    cases h
    rfl
  | cons x head ih =>
    cases xs with
    | nil => cases h
    | cons y xs =>
      unfold after? at h
      split at h
      · rename_i hs
        rw [beq_iff_eq.1 hs, ih h, cons_append]
      · cases h

theorem after?_append (head rest : List Char) : after? head (head ++ rest) = some rest := by
  induction head with
  | nil => rfl
  | cons c head ih => simp [after?, ih]

theorem afterText?_eq_some_iff {head s rest : String} :
    afterText? head s = some rest ↔ s = head ++ rest := by
  rw [afterText?, Option.map_eq_some_iff]
  constructor
  · rintro ⟨cs, found, rfl⟩
    rw [← String.toList_inj, eq_append_of_after? found]
    simp
  · rintro rfl
    refine ⟨rest.toList, ?_, String.ofList_toList⟩
    rw [String.toList_append, after?_append]

theorem prefix_drop_of_indexOf? {needle xs : List Char} {i : Nat}
    (h : indexOf? needle xs = some i) : needle <+: xs.drop i := by
  induction xs generalizing i with
  | nil =>
    unfold indexOf? at h
    split at h
    · rename_i he
      rw [isEmpty_iff.1 he]
      exact nil_prefix
    · cases h
  | cons x xs ih =>
    unfold indexOf? at h
    split at h
    · rename_i here
      cases h
      exact isPrefixOf_iff_prefix.1 here
    · obtain ⟨j, hf, rfl⟩ := Option.map_eq_some_iff.1 h
      exact ih hf

theorem eq_of_cutText? {sep s a b : String} (h : cutText? sep s = some (a, b)) : s = a ++ sep ++ b := by
  obtain ⟨⟨left, right⟩, cut, hs⟩ := Option.map_eq_some_iff.1 h
  obtain ⟨i, hf, halves⟩ := Option.map_eq_some_iff.1 cut
  cases halves
  cases hs
  obtain ⟨rest, hp⟩ := prefix_drop_of_indexOf? hf
  have right : s.toList.drop (i + sep.toList.length) = rest := by
    rw [← drop_drop, ← hp, drop_left]
  rw [right, ← String.toList_inj]
  simp only [String.toList_append, String.toList_ofList, append_assoc, hp, take_append_drop]

theorem isAlpha_eq_false_of_isBlank (hb : isBlank c) : c.isAlpha = false := by
  by_contra hl
  rw [Bool.not_eq_false] at hl
  change (decide (c.val ≥ 65 ∧ c.val ≤ 90) || (c.val ≥ 97 && c.val ≤ 122)) at hl
  simp only [Bool.or_eq_true, Bool.and_eq_true, decide_eq_true_eq, ge_iff_le, UInt32.le_iff_toNat_le] at hl
  simp only [isBlank, Bool.or_eq_true, Bool.and_eq_true, decide_eq_true_eq, beq_iff_eq, Char.toNat] at hb
  have hbo : 65 ≤ c.val.toNat ∧ c.val.toNat ≤ 122 := by
    rcases hl with ⟨low, high⟩ | ⟨low, high⟩
    · exact ⟨low, Nat.le_trans high (by decide)⟩
    · exact ⟨Nat.le_trans (by decide) low, high⟩
  omega

theorem isBlank_of_isDigit (hd : c.isDigit) : isBlank c = false := by
  change (c.val ≥ 48 && c.val ≤ 57) at hd
  simp only [Bool.and_eq_true, decide_eq_true_eq, ge_iff_le, UInt32.le_iff_toNat_le] at hd
  have hb : 48 ≤ c.toNat ∧ c.toNat ≤ 57 := hd
  simp only [isBlank, Bool.or_eq_false_iff, Bool.and_eq_false_iff, decide_eq_false_iff_not,
    beq_eq_false_iff_ne]
  omega

theorem isDigit_eq_false_of_isAlpha (hl : c.isAlpha) : c.isDigit = false := by
  change (decide (c.val ≥ 65 ∧ c.val ≤ 90) || (c.val ≥ 97 && c.val ≤ 122)) at hl
  change (c.val ≥ 48 && c.val ≤ 57) = false
  simp only [Bool.or_eq_true, Bool.and_eq_true, decide_eq_true_eq, ge_iff_le, UInt32.le_iff_toNat_le] at hl
  simp only [Bool.and_eq_false_iff, decide_eq_false_iff_not, ge_iff_le, UInt32.le_iff_toNat_le]
  have low : 65 ≤ c.val.toNat := by
    rcases hl with ⟨low, -⟩ | ⟨low, -⟩
    · exact low
    · exact Nat.le_trans (by decide) low
  exact .inr fun high => absurd (Nat.le_trans low high) (by decide)

theorem trimBack_of_getLast? {s : String} (hl : s.toList.getLast? = some c)
    (hv : isBlank c = false) : trimBack s = s := by
  obtain ⟨pre, hs⟩ := getLast?_eq_some_iff.1 hl
  have hsa : dropLastWhile isBlank s.toList = s.toList := by
    simp [dropLastWhile, hs, hv]
  rw [trimBack, dropBack, hsa, String.ofList_toList]

/-! ## Identifiers -/

def isIdentRest (c : Char) : Bool :=
  c.isAlphanum || c == '_'

theorem isBlank_of_isIdentRest (hr : isIdentRest c) : isBlank c = false := by
  by_contra hb
  rw [Bool.not_eq_false] at hb
  change (c.isAlpha || c.isDigit || c == '_') at hr
  rw [isAlpha_eq_false_of_isBlank hb, Bool.false_or, Bool.or_eq_true] at hr
  rcases hr with hd | hl
  · rw [isBlank_of_isDigit hd] at hb
    cases hb
  · rw [eq_of_beq hl] at hb
    exact absurd hb (by decide)

theorem isIdentRest_of_isIdentChars (hi : isIdentChars cs) :
    cs ≠ [] ∧ ∀ c ∈ cs, isIdentRest c := by
  cases cs with
  | nil => cases hi
  | cons c cs =>
    rw [isIdentChars, Bool.and_eq_true, Bool.or_eq_true, all_eq_true] at hi
    obtain ⟨first, ho⟩ := hi
    refine ⟨cons_ne_nil c cs, forall_mem_cons.2 ⟨?_, ho⟩⟩
    change (c.isAlpha || c.isDigit || c == '_')
    rcases first with hl | hli
    · rw [hl]
      rfl
    · rw [hli, Bool.or_true]

theorem trimBack_of_isIdentLine {name : String} (hi : isIdentLine name) :
    (trimBack name).toList ≠ [] ∧ (∀ c ∈ (trimBack name).toList, isIdentRest c) ∧
      (name.toList = (trimBack name).toList ∨ name.toList = (trimBack name).toList ++ ['\n']) := by
  have hv {cs : List Char} (hi : isIdentChars cs) : dropLastWhile isBlank cs = cs := by
    obtain ⟨hf, all⟩ := isIdentRest_of_isIdentChars hi
    obtain ⟨front, last, rfl⟩ := (eq_nil_or_concat' cs).resolve_left hf
    have hs : isBlank last = false := isBlank_of_isIdentRest (all last (by simp))
    simp [dropLastWhile, hs]
  rw [isIdentLine, Bool.or_eq_true, Bool.and_eq_true, beq_iff_eq] at hi
  rcases hi with hp | ⟨last, front⟩
  · have hsa : (trimBack name).toList = name.toList := by
      rw [trimBack, dropBack, hv hp, String.ofList_toList]
    obtain ⟨hf, all⟩ := isIdentRest_of_isIdentChars hp
    rw [hsa]
    exact ⟨hf, all, .inl rfl⟩
  · obtain ⟨cs, hs⟩ := getLast?_eq_some_iff.1 last
    rw [hs, dropLast_concat] at front
    have hsa : (trimBack name).toList = cs := by
      rw [trimBack, dropBack, hs, dropLastWhile_append cs (forall_mem_singleton.2 rfl),
        hv front, String.toList_ofList]
    obtain ⟨hf, all⟩ := isIdentRest_of_isIdentChars front
    rw [hsa]
    exact ⟨hf, all, .inr hs⟩

/-- A run is not empty, and its elements are some of those that were read. -/
theorem mem_runsFrom {α : Type} {p : α → Bool} {cur xs run : List α} (hb : ∀ x ∈ cur, p x)
    (mem : run ∈ runsFrom p cur xs) : run ≠ [] ∧ ∀ x ∈ run, p x ∧ (x ∈ cur ∨ x ∈ xs) := by
  have hw {cur : List α} (some : ¬ cur.isEmpty) (hb : ∀ x ∈ cur, p x) (xs : List α) :
      cur.reverse ≠ [] ∧ ∀ x ∈ cur.reverse, p x ∧ (x ∈ cur ∨ x ∈ xs) :=
    ⟨by simpa using some, fun x mem => ⟨hb x (mem_reverse.1 mem), .inl (mem_reverse.1 mem)⟩⟩
  induction xs generalizing cur with
  | nil =>
    rw [runsFrom] at mem
    split at mem
    · exact absurd mem not_mem_nil
    next some =>
      rw [mem_singleton.1 mem]
      exact hw some hb []
  | cons x xs ih =>
    have hl {cur' : List α} (hk : ∀ y ∈ cur', p y ∧ (y = x ∨ y ∈ cur))
        (mem : run ∈ runsFrom p cur' xs) : run ≠ [] ∧ ∀ y ∈ run, p y ∧ (y ∈ cur ∨ y ∈ x :: xs) := by
      obtain ⟨some, all⟩ := ih (fun y hy => (hk y hy).1) mem
      refine ⟨some, fun y hy => ⟨(all y hy).1, ?_⟩⟩
      rcases (all y hy).2 with old | new
      · exact (hk y old).2.elim (fun same => .inr (same ▸ mem_cons_self)) .inl
      · exact .inr (mem_cons_of_mem _ new)
    rw [runsFrom] at mem
    split at mem
    next holds =>
      exact hl (forall_mem_cons.2 ⟨⟨holds, .inl rfl⟩, fun y hy => ⟨hb y hy, .inr hy⟩⟩) mem
    · split at mem
      · exact hl (forall_mem_nil _) mem
      next some =>
        rcases mem_cons.1 mem with rfl | mem
        · exact hw some hb _
        · exact hl (forall_mem_nil _) mem

end Appwright.Text
