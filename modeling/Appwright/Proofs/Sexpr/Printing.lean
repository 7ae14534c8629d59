import Appwright.Sexpr.Basic
import Mathlib.Data.List.TakeWhile
import Mathlib.Tactic.FinCases

/-!
# Printing forms

Forms are printed with one blank between neighbours, texts in quotes and with a backslash before
each quote and each backslash in them. Reading undoes printing (`read_print`): the tokens of
printed forms are those of the forms, and the forms are assembled from them again.

A float is not read back from its text in general, so it is left out. A symbol is read back if it is
one word that stands for nothing else (`IsSymbolName`), a whole number if it has no more digits than
are read.

Tokens are found from left to right whatever follows them, except that a word has to end before the
next token begins (`Stops`). So the tokens of a part do not depend on where it stands, and lines are
cut one by one (`tokenize_append_lines`).
-/

namespace Appwright

open List Text Option Nat Decimal

namespace Sexpr

/-! ## Words that are numbers -/

def AreDigits (ds : List Char) : Prop :=
  ds ≠ [] ∧ ∀ d ∈ ds, isDecimal d = true

def signChars (negative : Bool) : List Char :=
  if negative then ['-'] else []

def fractionChars : Option (List Char) → List Char
  | none => []
  | some ds => '.' :: ds

/-- A word that is a number: a minus sign or none, digits, and behind a point more digits or no
point. -/
def IsNumber (word : List Char) : Prop :=
  ∃ (negative : Bool) (whole : List Char) (fraction : Option (List Char)),
    AreDigits whole ∧ (∀ ds, fraction = some ds → AreDigits ds) ∧
      word = signChars negative ++ (whole ++ fractionChars fraction)

theorem isDecimal_point : isDecimal '.' = false := by decide

variable {c : Char} {whole cs word rest : List Char} (n : Nat) {name : String} {mode next : Mode}
  {ts : List Token} {v : Leaf}

theorem ne_minus_of_isDecimal (h : isDecimal c) : c ≠ '-' := by
  rintro rfl
  exact absurd h (by decide)

theorem AreDigits.exists_head {ds : List Char} (h : AreDigits ds) :
    ∃ c cs, ds = c :: cs ∧ isDecimal c := by
  cases ds with
  | nil => exact absurd rfl h.1
  | cons c cs => exact ⟨c, cs, rfl, h.2 c mem_cons_self⟩

theorem takeWhile_digits_append (h : AreDigits whole) (frac : Option (List Char)) :
    (whole ++ fractionChars frac).takeWhile isDecimal = whole := by
  rw [takeWhile_append_of_pos h.2]
  cases frac <;> simp [fractionChars, isDecimal_point]

theorem dropWhile_digits_append (h : AreDigits whole) (frac : Option (List Char)) :
    (whole ++ fractionChars frac).dropWhile isDecimal = fractionChars frac := by
  rw [dropWhile_append_of_pos h.2]
  cases frac <;> simp [fractionChars, isDecimal_point]

theorem numeral?_eq_map_minus (hm : c ≠ '-') (cs : List Char) :
    numeral? (c :: cs) = (numeral? ('-' :: c :: cs)).map fun ps => (false, ps.2) := by
  simp only [numeral?]
  split
  next ds eq => exact absurd (cons.inj eq).1 hm
  next =>
    by_cases he : ((c :: cs).takeWhile isDecimal).isEmpty
    · simp [he]
    · simp only [he]
      cases (c :: cs).dropWhile isDecimal with
      | nil => rfl
      | cons d ds =>
        by_cases hp : d = '.'
        · subst hp
          by_cases hd : (!ds.isEmpty && ds.all isDecimal) <;> simp [hd]
        · simp [hp]

theorem numeral?_minus_iff {whole : List Char} {neg : Bool} {frac : Option (List Char)} :
    numeral? ('-' :: cs) = some (neg, whole, frac) ↔
      neg ∧ AreDigits whole ∧ (∀ ds, frac = some ds → AreDigits ds) ∧
        cs = whole ++ fractionChars frac := by
  constructor
  · intro h
    have hp := (takeWhile_append_dropWhile (p := isDecimal) (l := cs)).symm
    simp only [numeral?] at h
    by_cases he : (cs.takeWhile isDecimal).isEmpty
    · simp [he] at h
    · have hdi : AreDigits (cs.takeWhile isDecimal) := ⟨by simpa using he, fun d hd => mem_takeWhile_imp hd⟩
      simp only [he] at h
      cases hr : cs.dropWhile isDecimal with
      | nil =>
        rw [hr] at h hp
        simp only [Bool.false_eq_true, if_false, some.injEq, Prod.mk.injEq] at h
        obtain ⟨rfl, rfl, rfl⟩ := h
        exact ⟨rfl, hdi, nofun, hp⟩
      | cons d ds =>
        by_cases hpo : d = '.'
        · subst hpo
          by_cases hm : (!ds.isEmpty && ds.all isDecimal)
          · rw [hr] at h hp
            simp only [Bool.false_eq_true, if_false, hm, if_true, some.injEq, Prod.mk.injEq] at h
            obtain ⟨rfl, rfl, rfl⟩ := h
            have hb : AreDigits ds := by simpa [AreDigits] using hm
            refine ⟨rfl, hdi, ?_, hp⟩
            rintro _ ⟨⟩
            exact hb
          · simp [hr, hm] at h
        · simp [hr, hpo] at h
  · rintro ⟨rfl, hdi, hb, rfl⟩
    have hf : whole.isEmpty = false := by simpa using hdi.1
    simp only [numeral?, takeWhile_digits_append hdi, dropWhile_digits_append hdi]
    cases frac with
    | none => simp [fractionChars, hf]
    | some ds =>
      obtain ⟨hn, hde⟩ := hb ds rfl
      have hc : (!ds.isEmpty && ds.all isDecimal) := by
        simpa [hn] using hde
      simp [fractionChars, hf, hc]

theorem numeral?_signed (neg : Bool) (frac : Option (List Char)) (hd : AreDigits whole)
    (hb : ∀ ds, frac = some ds → AreDigits ds) :
    numeral? (signChars neg ++ (whole ++ fractionChars frac)) = some (neg, whole, frac) := by
  have hr := numeral?_minus_iff.2 ⟨rfl, hd, hb, rfl⟩
  cases neg with
  | true => exact hr
  | false =>
    obtain ⟨d, ds, rfl, hde⟩ := hd.exists_head
    have hp := numeral?_eq_map_minus (ne_minus_of_isDecimal hde) (ds ++ fractionChars frac)
    rw [cons_append] at hr
    rw [hr] at hp
    exact hp

theorem isNumber_iff : IsNumber word ↔ (numeral? word).isSome := by
  constructor
  · rintro ⟨neg, whole, frac, hd, hb, rfl⟩
    rw [numeral?_signed neg frac hd hb]
    rfl
  · intro h
    obtain ⟨⟨neg, whole, frac⟩, hr⟩ := isSome_iff_exists.1 h
    cases word with
    | nil => simp [numeral?] at hr
    | cons c cs =>
      by_cases hm : c = '-'
      · subst hm
        obtain ⟨rfl, hd, hb, rfl⟩ := numeral?_minus_iff.1 hr
        exact ⟨true, whole, frac, hd, hb, rfl⟩
      · rw [numeral?_eq_map_minus hm] at hr
        obtain ⟨⟨neg', all', frac'⟩, hr, eq⟩ := map_eq_some_iff.1 hr
        obtain ⟨-, hd, hb, hp⟩ := numeral?_minus_iff.1 hr
        exact ⟨false, all', frac', hd, hb, hp⟩

instance (word : List Char) : Decidable (IsNumber word) :=
  decidable_of_iff _ isNumber_iff.symm

/-! ## The leaf of a word -/

theorem decimalValue?_digitChar : ∀ d < 10, decimalValue? (digitChar d) = some d := by
  decide

theorem decimalValue?_of_mem_toDigits {n : Nat} (h : c ∈ toDigits 10 n) :
    ∃ d < 10, decimalValue? c = some d ∧ Char.ofNat (48 + d) = c := by
  have hd := isDigit_of_mem_toDigits (by decide) (by decide) h
  have hb : 48 ≤ c.toNat ∧ c.toNat ≤ 57 := Char.isDigit_iff_toNat.1 hd
  have hs : c.toNat - 48 < 10 := by omega
  have hsa : c = digitChar (c.toNat - 48) := by
    apply Char.toNat_inj.1
    rw [toNat_digitChar_of_lt_ten hs]
    omega
  refine ⟨c.toNat - 48, hs, ?_, ?_⟩
  · have hv := decimalValue?_digitChar _ hs
    rwa [← hsa] at hv
  · rw [Nat.add_sub_cancel' hb.1, Char.ofNat_toNat]

theorem areDigits_toDigits : AreDigits (toDigits 10 n) := by
  refine ⟨toDigits_ne_nil, ?_⟩
  intro c hc
  obtain ⟨d, -, hv, -⟩ := decimalValue?_of_mem_toDigits hc
  rw [isDecimal, hv]
  rfl

theorem asciiDigits_toDigits : asciiDigits (toDigits 10 n) = toDigits 10 n := by
  refine (map_congr_left ?_).trans (map_id _)
  intro c hc
  obtain ⟨d, -, hv, hs⟩ := decimalValue?_of_mem_toDigits hc
  rw [hv]
  exact hs

theorem decimalOf_toDigits : decimalOf (toDigits 10 n) = n :=
  ofDigitChars_toDigits (by decide) (by decide)

def digitsOf (n : Int) : List Char :=
  Nat.toDigits 10 n.natAbs

theorem toList_ofInt (n : Int) : (ofInt n).toList = signChars (decide (n < 0)) ++ digitsOf n := by
  cases n with
  | ofNat n => simp [ofInt, ofNat, signChars, digitsOf]
  | negSucc n => simp [ofInt, ofNat, signChars, digitsOf, Int.negSucc_lt_zero]

theorem classify_ofInt {n : Int} (hs : (digitsOf n).length ≤ maxDigits) :
    classify (ofInt n).toList = .ok (.int n) := by
  have hr := numeral?_signed (decide (n < 0)) none (areDigits_toDigits n.natAbs) nofun
  rw [fractionChars, append_nil] at hr
  have he : ¬ maxDigits < (toDigits 10 n.natAbs).length := not_lt.2 hs
  rw [toList_ofInt, digitsOf, classify, hr]
  simp only [he, if_false, asciiDigits_toDigits, decimalOf_toDigits, decide_eq_true_eq]
  have hv : (if n < 0 then -(n.natAbs : Int) else n.natAbs) = n := by
    split <;> omega
  rw [hv]

/-- A word that is not quoted: it begins like one and holds nothing that ends it. -/
structure IsWord (word : List Char) : Prop where
  nonempty : word ≠ []
  first : ∀ c ∈ word.head?, c ≠ '"' ∧ c ≠ '#' ∧ c ≠ ';'
  inside : ∀ c ∈ word, endsWord c = false

structure IsSymbolName (name : String) : Prop where
  nonempty : name ≠ ""
  first : ∀ c ∈ name.toList.head?, c ≠ '"' ∧ c ≠ '#' ∧ c ≠ ';'
  inside : ∀ c ∈ name.toList, c ∉ [' ', '\t', '\r', '\n', '(', ')']
  number : ¬ IsNumber name.toList
  constant : name ≠ "true" ∧ name ≠ "false" ∧ name ≠ "null"

theorem endsWord_eq_false_iff {c : Char} : endsWord c = false ↔ c ∉ [' ', '\t', '\r', '\n', '(', ')'] := by
  simp [endsWord, isSpace, and_assoc]

theorem IsSymbolName.isWord (h : IsSymbolName name) : IsWord name.toList where
  nonempty := by simpa using h.nonempty
  first := h.first
  inside c hc := endsWord_eq_false_iff.2 (h.inside c hc)

theorem classify_symbol (h : IsSymbolName name) :
    classify name.toList = .ok (.symbol name) := by
  have ha : numeral? name.toList = none := by
    rw [← not_isSome_iff_eq_none, ← isNumber_iff]
    exact h.number
  have ho {s : String} (ne : name ≠ s) : ¬ (name.toList == s.toList) := by
    simpa [String.toList_inj] using ne
  rw [classify, ha]
  simp only [if_neg (ho h.constant.1), if_neg (ho h.constant.2.1),
    if_neg (ho h.constant.2.2), String.ofList_toList]

theorem isWord_constant {s : String} (h : s ∈ ["true", "false", "null"]) : IsWord s.toList := by
  fin_cases h <;> exact ⟨by simp, by simp, by simp [endsWord, isSpace]⟩

def numberChars : List Char :=
  "-0123456789".toList

theorem mem_numberChars {n : Int} (h : c ∈ (ofInt n).toList) : c ∈ numberChars := by
  have hd : ∀ d < 10, Char.ofNat (48 + d) ∈ numberChars := by decide
  rw [toList_ofInt, mem_append] at h
  rcases h with hsi | hdi
  · have hm : c = '-' := by
      by_cases hn : n < 0 <;> simp_all [signChars]
    rw [hm]
    decide
  · obtain ⟨d, hs, -, rfl⟩ := decimalValue?_of_mem_toDigits hdi
    exact hd d hs

theorem isWord_ofInt (n : Int) : IsWord (ofInt n).toList where
  nonempty := by
    rw [toList_ofInt]
    exact append_ne_nil_of_right_ne_nil _ toDigits_ne_nil
  first c hc := by
    have hp : numberChars.all (fun c => c != '"' && c != '#' && c != ';') := by decide
    have here := all_eq_true.1 hp c (mem_numberChars (mem_of_mem_head? hc))
    simpa [and_assoc] using here
  inside c hc := by
    have hp : numberChars.all (fun c => !endsWord c) := by decide
    have here := all_eq_true.1 hp c (mem_numberChars hc)
    simpa using here

/-! ## Tokens from left to right -/

def Stops (rest : List Char) : Prop :=
  ∀ c ∈ rest.head?, endsWord c = true

theorem map_nil_append {ε α : Type} (r : Except ε (List α)) : r.map ([] ++ ·) = r := by
  cases r <;> rfl

theorem map_append_map {ε α : Type} (xs ys : List α) (r : Except ε (List α)) :
    (r.map (ys ++ ·)).map (xs ++ ·) = r.map (xs ++ ys ++ ·) := by
  cases r <;> simp [Except.map]

theorem tokensFrom_cons
    (h : step mode c = .ok (ts, next)) (cs : List Char) :
    tokensFrom mode (c :: cs) = (tokensFrom next cs).map (ts ++ ·) := by
  rw [tokensFrom, h]
  simp only
  cases tokensFrom next cs <;> rfl

theorem tokensFrom_cons_nil (h : step mode c = .ok ([], next)) (cs : List Char) :
    tokensFrom mode (c :: cs) = tokensFrom next cs := by
  rw [tokensFrom_cons h, map_nil_append]

theorem tokensFrom_word_append (hi : ∀ c ∈ cs, endsWord c = false)
    (read rest : List Char) :
    tokensFrom (.word read) (cs ++ rest) = tokensFrom (.word (cs.reverse ++ read)) rest := by
  induction cs generalizing read with
  | nil => rfl
  | cons c cs ih =>
    have here : step (.word read) c = .ok ([], .word (c :: read)) := by
      simp [step, hi c mem_cons_self]
    rw [cons_append, tokensFrom_cons_nil here,
      ih (fun d hd => hi d (mem_cons_of_mem _ hd)), reverse_cons, append_assoc]
    rfl

theorem tokensFrom_word {read : List Char} (h : classify read.reverse = .ok v)
    (hs : Stops rest) : tokensFrom (.word read) rest = (tokensFrom .between rest).map (.leaf v :: ·) := by
  cases rest with
  | nil => simp [tokensFrom, finish, h, Except.map]
  | cons c cs =>
    have he : step (.word read) c = .ok (.leaf v :: (stepBetween c).1, (stepBetween c).2) := by
      simp [step, hs c rfl, h]
    have hb : step .between c = .ok ((stepBetween c).1, (stepBetween c).2) := rfl
    rw [tokensFrom_cons he, tokensFrom_cons hb]
    cases tokensFrom (stepBetween c).2 cs <;> rfl

theorem tokensFrom_between_word (hi : IsWord word)
    (h : classify word = .ok v) (hs : Stops rest) :
    tokensFrom .between (word ++ rest) = (tokensFrom .between rest).map (.leaf v :: ·) := by
  cases word with
  | nil => exact absurd rfl hi.nonempty
  | cons c cs =>
    obtain ⟨hq, hash, hse⟩ := hi.first c rfl
    have hp := hi.inside c mem_cons_self
    rw [endsWord_eq_false_iff] at hp
    have hb : step .between c = .ok ([], .word [c]) := by
      simp_all [step, stepBetween, isSpace]
    rw [cons_append, tokensFrom_cons_nil hb,
      tokensFrom_word_append fun d hd => hi.inside d (mem_cons_of_mem _ hd)]
    refine tokensFrom_word ?_ hs
    simpa using h

def quotedChar (c : Char) : List Char :=
  if c == '\\' || c == '"' then ['\\', c] else [c]

theorem tokensFrom_text (cs read rest : List Char) :
    tokensFrom (.text read) (cs.flatMap quotedChar ++ '"' :: rest) =
      (tokensFrom .between rest).map (.leaf (.str (String.ofList (read.reverse ++ cs))) :: ·) := by
  induction cs generalizing read with
  | nil =>
    have he : step (.text read) '"' = .ok ([.leaf (.str (String.ofList read.reverse))], .between) := rfl
    rw [flatMap_nil, nil_append, tokensFrom_cons he, append_nil]
    rfl
  | cons c cs ih =>
    have hg : tokensFrom (.text read) ((c :: cs).flatMap quotedChar ++ '"' :: rest) =
        tokensFrom (.text (c :: read)) (cs.flatMap quotedChar ++ '"' :: rest) := by
      rw [flatMap_cons, append_assoc]
      by_cases hs : (c == '\\' || c == '"')
      · have hsl : step (.text read) '\\' = .ok ([], .escape read) := rfl
        have hsa : escaped c = c := by
          rcases Bool.or_eq_true_iff.1 hs with h | h <;> rw [beq_iff_eq.1 h] <;> rfl
        have hk : step (.escape read) c = .ok ([], .text (c :: read)) := by rw [step, hsa]
        rw [quotedChar, if_pos hs, cons_append, tokensFrom_cons_nil hsl,
          singleton_append, tokensFrom_cons_nil hk]
      · have hk : step (.text read) c = .ok ([], .text (c :: read)) := by
          simp_all [step]
        rw [quotedChar, if_neg hs, singleton_append, tokensFrom_cons_nil hk]
    rw [hg, ih, reverse_cons, append_assoc]
    rfl

/-! ## Lines -/

/-- A line feed does what the end of a text does: it ends a comment or a word. -/
theorem step_feed_of_finish (h : finish mode = .ok ts) :
    step mode '\n' = .ok (ts, .between) := by
  cases mode with
  | between | comment =>
    cases h
    rfl
  | word read =>
    rw [finish] at h
    cases hk : classify read.reverse with
    | error e =>
      rw [hk] at h
      cases h
    | ok v =>
      rw [hk] at h
      cases h
      rw [step, hk]
      rfl
  | text | escape => cases h

theorem tokensFrom_append_feed
    (h : tokensFrom mode cs = .ok ts) (rest : List Char) :
    tokensFrom mode (cs ++ '\n' :: rest) = (tokensFrom .between rest).map (ts ++ ·) := by
  induction cs generalizing mode ts with
  | nil => exact tokensFrom_cons (step_feed_of_finish h) rest
  | cons c cs ih =>
    rw [tokensFrom] at h
    split at h
    · cases h
    next here next hs =>
      split at h
      · cases h
      next later hl =>
        cases h
        rw [cons_append, tokensFrom_cons hs, ih hl, map_append_map]

/-- After a text that can be cut into tokens, the next lines are cut as if they stood alone, whatever
the text ends in: its tokens come first and theirs follow, and what is wrong with them is all that is
wrong with both. -/
theorem tokenize_append_lines {text : String} {tokens : List Token}
    (cut : tokenize text = .ok tokens) (lines : String) :
    tokenize (text ++ "\n" ++ lines) = (tokenize lines).map (tokens ++ ·) ∧
    ((∃ all, tokenize (text ++ "\n" ++ lines) = .ok all) ↔ ∃ more, tokenize lines = .ok more) := by
  have chars : (text ++ "\n" ++ lines).toList = text.toList ++ '\n' :: lines.toList := by simp
  have joined : tokenize (text ++ "\n" ++ lines) = (tokenize lines).map (tokens ++ ·) := by
    rw [tokenize, chars, tokensFrom_append_feed cut, tokenize]
  refine ⟨joined, ?_⟩
  rw [joined]
  cases tokenize lines <;> simp [Except.map]

/-- A bracket after a comment, a symbol, a number and a quoted text. -/
theorem bracket_after_each :
    tokenize "(x ; (\"\n)" = .ok [.opening, .leaf (.symbol "x"), .closing] ∧
    tokenize "x\"\n)" = .ok [.leaf (.symbol "x\""), .closing] ∧
    tokenize "-7\n)" = .ok [.leaf (.int (-7)), .closing] ∧
    tokenize "\"a;\\\"\"\n)" = .ok [.leaf (.str "a;\""), .closing] := by
  have comment : tokenize "(x ; (\"" = .ok [.opening, .leaf (.symbol "x")] := rfl
  have symbol : tokenize "x\"" = .ok [.leaf (.symbol "x\"")] := rfl
  have number : tokenize "-7" = .ok [.leaf (.int (-7))] := rfl
  have quoted : tokenize "\"a;\\\"\"" = .ok [.leaf (.str "a;\"")] := rfl
  exact ⟨(tokenize_append_lines comment ")").1, (tokenize_append_lines symbol ")").1,
    (tokenize_append_lines number ")").1, (tokenize_append_lines quoted ")").1⟩

end Sexpr

namespace Form

open Sexpr

/-! ## Printed forms -/

def leafChars : Leaf → List Char
  | .int n => (ofInt n).toList
  | .float x => (Decimal.text x).toList
  | .bool b => (if b then "true" else "false").toList
  | .null => "null".toList
  | .str s => '"' :: s.toList.flatMap quotedChar ++ ['"']
  | .symbol name => name.toList

mutual
def printChars : Form → List Char
  | .leaf v => leafChars v
  | .list items => '(' :: printAll items ++ [')']
def printAll : List Form → List Char
  | [] => []
  | f :: fs => printChars f ++ printRest fs
def printRest : List Form → List Char
  | [] => []
  | f :: fs => ' ' :: printChars f ++ printRest fs
end

def print (forms : List Form) : String :=
  String.ofList (printAll forms)

/-- A leaf that is read back from its text: a whole number with no more digits than are read, a
constant, any text, or a symbol with a name of its own. -/
def IsReadable : Leaf → Prop
  | .int n => (digitsOf n).length ≤ Decimal.maxDigits
  | .symbol name => IsSymbolName name
  | .float _ => False
  | _ => True

mutual
def leaves : Form → List Leaf
  | .leaf v => [v]
  | .list items => leavesOfAll items
def leavesOfAll : List Form → List Leaf
  | [] => []
  | f :: fs => leaves f ++ leavesOfAll fs
end

variable {rest : List Char}

theorem tokensFrom_leafChars {v : Leaf} (h : IsReadable v) (hs : Stops rest) :
    tokensFrom .between (leafChars v ++ rest) = (tokensFrom .between rest).map (.leaf v :: ·) := by
  cases v with
  | int n => exact tokensFrom_between_word (isWord_ofInt n) (classify_ofInt h) hs
  | float x => exact h.elim
  | bool b =>
    cases b with
    | true | false => exact tokensFrom_between_word (isWord_constant (by simp)) rfl hs
  | null => exact tokensFrom_between_word (isWord_constant (by simp)) rfl hs
  | str s =>
    have hb : step .between '"' = .ok ([], .text []) := rfl
    rw [leafChars, cons_append, cons_append, tokensFrom_cons_nil hb, append_assoc]
    simpa using tokensFrom_text s.toList [] rest
  | symbol name => exact tokensFrom_between_word h.isWord (classify_symbol h) hs

theorem stops_printRest (fs : List Form) (hs : Stops rest) :
    Stops (printRest fs ++ rest) := by
  cases fs with
  | nil => exact hs
  | cons f fs =>
    rintro c ⟨⟩
    rfl

mutual
/-- The tokens of a printed form are its own. The induction is on the form; what follows it is
arbitrary, so that neighbours and closing brackets can follow. -/
theorem tokensFrom_printChars : ∀ (f : Form) (rest : List Char), (∀ v ∈ leaves f, IsReadable v) →
    Stops rest →
    tokensFrom .between (printChars f ++ rest) = (tokensFrom .between rest).map (flatten f ++ ·)
  | .leaf v, rest, hr, hs =>
    tokensFrom_leafChars (hr v mem_cons_self) hs
  | .list xs, rest, hr, hs => by
    have hb : step .between '(' = .ok ([.opening], .between) := rfl
    have he : step .between ')' = .ok ([.closing], .between) := rfl
    have hc : Stops (')' :: rest) := by
      rintro c ⟨⟩
      rfl
    rw [printChars, cons_append, cons_append, tokensFrom_cons hb, append_assoc,
      singleton_append, tokensFrom_printAll xs (')' :: rest) hr hc,
      tokensFrom_cons he, map_append_map, map_append_map, flatten]
    rfl
theorem tokensFrom_printAll : ∀ (fs : List Form) (rest : List Char),
    (∀ v ∈ leavesOfAll fs, IsReadable v) → Stops rest →
    tokensFrom .between (printAll fs ++ rest) = (tokensFrom .between rest).map (flattenAll fs ++ ·)
  | [], rest, _, _ => (map_nil_append _).symm
  | f :: fs, rest, hr, hs => by
    rw [leavesOfAll, forall_mem_append] at hr
    rw [printAll, append_assoc, tokensFrom_printChars f _ hr.1 (stops_printRest fs hs),
      tokensFrom_printRest fs rest hr.2 hs, map_append_map, flattenAll]
theorem tokensFrom_printRest : ∀ (fs : List Form) (rest : List Char),
    (∀ v ∈ leavesOfAll fs, IsReadable v) → Stops rest →
    tokensFrom .between (printRest fs ++ rest) = (tokensFrom .between rest).map (flattenAll fs ++ ·)
  | [], rest, _, _ => (map_nil_append _).symm
  | f :: fs, rest, hr, hs => by
    have hb : step .between ' ' = .ok ([], .between) := rfl
    rw [leavesOfAll, forall_mem_append] at hr
    rw [printRest, cons_append, cons_append, tokensFrom_cons_nil hb, append_assoc,
      tokensFrom_printChars f _ hr.1 (stops_printRest fs hs),
      tokensFrom_printRest fs rest hr.2 hs, map_append_map, flattenAll]
end

/-! ## Forms from their tokens -/

mutual
theorem assembleFrom_flatten : ∀ (f : Form) (cur : List Form) (out : List (List Form))
    (rest : List Token), assembleFrom cur out (flatten f ++ rest) = assembleFrom (f :: cur) out rest
  | .leaf v, cur, out, rest => rfl
  | .list xs, cur, out, rest => by
    rw [flatten, cons_append, cons_append, assembleFrom, append_assoc,
      assembleFrom_flattenAll xs, append_nil, singleton_append, assembleFrom, reverse_reverse]
theorem assembleFrom_flattenAll : ∀ (fs cur : List Form) (out : List (List Form)) (rest : List Token),
    assembleFrom cur out (flattenAll fs ++ rest) = assembleFrom (fs.reverse ++ cur) out rest
  | [], cur, out, rest => rfl
  | f :: fs, cur, out, rest => by
    rw [flattenAll, append_assoc, assembleFrom_flatten f, assembleFrom_flattenAll fs,
      reverse_cons, append_assoc, singleton_append]
end

/-- Reading undoes printing: printed forms have the tokens of the forms, from which they are
assembled again. -/
theorem read_print (forms : List Form) (readable : ∀ v ∈ leavesOfAll forms, IsReadable v) :
    ∃ tokens, Sexpr.tokenize (print forms) = .ok tokens ∧ assemble tokens = .ok forms := by
  have ends : Stops [] := nofun
  have cut := tokensFrom_printAll forms [] readable ends
  have built := assembleFrom_flattenAll forms [] [] []
  rw [List.append_nil] at cut
  rw [List.append_nil, List.append_nil, assembleFrom, List.reverse_reverse] at built
  refine ⟨flattenAll forms, ?_, built⟩
  rw [tokenize, print, String.toList_ofList, cut]
  simp [tokensFrom, finish, Except.map]

/-- Forms with quotes, comment signs and brackets where they do not count. -/
def trickyForms : List Form :=
  [.list [.leaf (.symbol "a\"b;c#"), .leaf (.str "(\\\" ;#\n"), .leaf (.int (-12)), .leaf (.bool true),
    .leaf .null, .list []], .leaf (.symbol "-1.")]

theorem read_print_trickyForms :
    print trickyForms = "(a\"b;c# \"(\\\\\\\" ;#\n\" -12 true null ()) -1." ∧
      (∀ v ∈ leavesOfAll trickyForms, IsReadable v) ∧
      ∃ tokens, Sexpr.tokenize (print trickyForms) = .ok tokens ∧ assemble tokens = .ok trickyForms := by
  have readable : ∀ v ∈ leavesOfAll trickyForms, IsReadable v := by
    have odd : IsSymbolName "a\"b;c#" := ⟨by simp, by simp, by simp, by decide, by simp⟩
    have cut : IsSymbolName "-1." := ⟨by simp, by simp, by simp, by decide, by simp⟩
    have short : (digitsOf (-12)).length ≤ Decimal.maxDigits := by decide
    simp [trickyForms, leavesOfAll, leaves, IsReadable, odd, cut, short]
  exact ⟨by decide, readable, read_print trickyForms readable⟩

end Form

end Appwright
