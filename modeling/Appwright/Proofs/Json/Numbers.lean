import Appwright.Json.Number
import Appwright.Json.Reader
import Appwright.Json.Writer
import Appwright.Proofs.Decimal.Shortest
import Appwright.Proofs.Sexpr.Printing

/-!
# Numbers written and read back

A number's text has a whole part, perhaps a fraction and perhaps an exponent (`Spelling`). The reader
finds these parts again, wherever a text follows that cannot go on a number. For a whole number the
parts say the number itself; for a float they say a decimal that rounds to it, in each of the layouts
that a decimal is written in.
-/

namespace Appwright.Json

open List Text Decimal Option Nat

open Sexpr (signChars digitsOf toList_ofInt decimalOf_toDigits)

/-! ## The parts of a number -/

/-- An exponent's text: the mark, a sign if any and the digits. -/
structure Exponent where
  mark : Char
  sign : List Char
  digits : List Char

def Exponent.value (e : Exponent) : Int :=
  if e.sign = ['-'] then -(decimalOf e.digits : Int) else decimalOf e.digits

structure Spelling where
  whole : List Char
  fraction : Option (List Char)
  exponent : Option Exponent

namespace Spelling

def fractionChars (s : Spelling) : List Char :=
  s.fraction.elim [] fun ds => '.' :: ds

def exponentChars (s : Spelling) : List Char :=
  s.exponent.elim [] fun e => e.mark :: (e.sign ++ e.digits)

def chars (s : Spelling) : List Char :=
  s.whole ++ (s.fractionChars ++ s.exponentChars)

/-- The exponent that is written, zero where there is none. -/
def power (s : Spelling) : Int :=
  (s.exponent.map Exponent.value).getD 0

end Spelling

def AreDigits (ds : List Char) : Prop :=
  ds ≠ [] ∧ ∀ d ∈ ds, d.isDigit = true

structure Exponent.Sound (e : Exponent) : Prop where
  mark : e.mark = 'e' ∨ e.mark = 'E'
  sign : e.sign = [] ∨ e.sign = ['+'] ∨ e.sign = ['-']
  digits : AreDigits e.digits

/-- Every part has digits, and no zero is in front of others. -/
structure Spelling.Sound (s : Spelling) : Prop where
  whole : AreDigits s.whole
  lead : s.whole = ['0'] ∨ s.whole.head? ≠ some '0'
  fraction : ∀ ds ∈ s.fraction, AreDigits ds
  exponent : ∀ e ∈ s.exponent, e.Sound

def EndsNumber (rest : List Char) : Prop :=
  ∀ c ∈ rest.head?, c.isDigit = false ∧ c ≠ '.' ∧ c ≠ 'e' ∧ c ≠ 'E'

section Parts

variable {ds rest : List Char}

theorem takeWhile_isDigit (digits : ∀ d ∈ ds, d.isDigit)
    (ends : ∀ c ∈ rest.head?, c.isDigit = false) :
    (ds ++ rest).takeWhile Char.isDigit = ds ∧ (ds ++ rest).dropWhile Char.isDigit = rest := by
  rw [takeWhile_append_of_pos digits, dropWhile_append_of_pos digits]
  cases rest with
  | nil => simp
  | cons c rest =>
    have ho := ends c rfl
    simp [ho]

theorem takeWhole?_eq (digits : AreDigits ds) (hl : ds = ['0'] ∨ ds.head? ≠ some '0')
    (ends : ∀ c ∈ rest.head?, c.isDigit = false) : takeWhole? (ds ++ rest) = some (ds, rest) := by
  rcases hl with rfl | hl
  · rfl
  · obtain ⟨some, digits⟩ := digits
    cases ds with
    | nil => exact absurd rfl some
    | cons d ds =>
      obtain ⟨first, digits⟩ := forall_mem_cons.1 digits
      obtain ⟨ht, left⟩ := takeWhile_isDigit digits ends
      have hn : d ≠ '0' := fun zero => hl (by rw [zero]; rfl)
      rw [cons_append, takeWhole?, if_pos first, ht, left]
      exact fun zero => hn zero

theorem takeFraction_eq (digits : AreDigits ds) (ends : ∀ c ∈ rest.head?, c.isDigit = false) :
    takeFraction ('.' :: (ds ++ rest)) = (some ds, rest) := by
  obtain ⟨some, digits⟩ := digits
  cases ds with
  | nil => exact absurd rfl some
  | cons d ds =>
    obtain ⟨first, digits⟩ := forall_mem_cons.1 digits
    obtain ⟨ht, left⟩ := takeWhile_isDigit digits ends
    rw [cons_append, takeFraction, if_pos first, ht, left]

theorem takeFraction_none (ends : ∀ c ∈ rest.head?, c ≠ '.') : takeFraction rest = (none, rest) := by
  unfold takeFraction
  split
  · exact absurd rfl (ends '.' rfl)
  · rfl

theorem takeExponent_eq {e : Exponent} (hs : e.Sound) (ends : ∀ c ∈ rest.head?, c.isDigit = false) :
    takeExponent (e.mark :: (e.sign ++ (e.digits ++ rest))) = (some e.value, rest) := by
  obtain ⟨ht, left⟩ := takeWhile_isDigit hs.digits.2 ends
  have hsi : takeSign (e.sign ++ (e.digits ++ rest)) = (decide (e.sign = ['-']), e.digits ++ rest) := by
    rcases hs.sign with none | hp | hm
    · obtain ⟨d, ds, digits⟩ := exists_cons_of_ne_nil hs.digits.1
      have hd := hs.digits.2 d (by simp [digits])
      have hm : d ≠ '-' := fun hsa => by simp [hsa] at hd
      have hp : d ≠ '+' := fun hsa => by simp [hsa] at hd
      simp [none, digits, takeSign, hm, hp]
    · rw [hp]
      rfl
    · rw [hm]
      rfl
  have hma : (e.mark == 'e' || e.mark == 'E') := by simpa using hs.mark
  have some : e.digits.isEmpty = false := by simpa using hs.digits.1
  rw [takeExponent, if_pos hma, hsi]
  dsimp only
  rw [ht, left, some, if_neg Bool.false_ne_true, Exponent.value]
  simp only [decide_eq_true_eq]

theorem takeExponent_none (ends : ∀ c ∈ rest.head?, c ≠ 'e' ∧ c ≠ 'E') :
    takeExponent rest = (none, rest) := by
  cases rest with
  | nil => rfl
  | cons c rest =>
    obtain ⟨hs, hc⟩ := ends c rfl
    rw [takeExponent, if_neg (by simp [hs, hc])]

end Parts

/-! ## Reading the parts -/

namespace Spelling

/-- What a number denotes: a whole number if it has nothing but a whole part. -/
def json (s : Spelling) (negative : Bool) : Json :=
  if s.fraction.isNone && s.exponent.isNone then
    .int (if negative then -(decimalOf s.whole : Int) else decimalOf s.whole)
  else .float (Numeral.toFloat negative ⟨s.whole, s.fraction.getD [], s.power⟩)

variable {s : Spelling} {rest : List Char} (hso : s.Sound) (ends : EndsNumber rest)

include hso ends

theorem head_exponentChars : ∀ c ∈ (s.exponentChars ++ rest).head?, c.isDigit = false ∧ c ≠ '.' := by
  unfold exponentChars
  cases h : s.exponent with
  | none =>
    intro c hc
    obtain ⟨hd, hp, -⟩ := ends c hc
    exact ⟨hd, hp⟩
  | some e =>
    rintro _ ⟨⟩
    rcases (hso.exponent e h).mark with hm | hm <;> rw [hm] <;> decide

theorem head_fractionChars :
    ∀ c ∈ (s.fractionChars ++ (s.exponentChars ++ rest)).head?, c.isDigit = false := by
  unfold fractionChars
  cases s.fraction with
  | none => exact fun c hc => (head_exponentChars hso ends c hc).1
  | some ds =>
    rintro _ ⟨⟩
    decide

theorem takeFraction_chars : takeFraction (s.fractionChars ++ (s.exponentChars ++ rest)) =
    (s.fraction, s.exponentChars ++ rest) := by
  have ha := head_exponentChars hso ends
  unfold fractionChars
  cases h : s.fraction with
  | none => exact takeFraction_none fun c hc => (ha c hc).2
  | some ds => exact takeFraction_eq (hso.fraction ds h) fun c hc => (ha c hc).1

theorem takeExponent_chars : takeExponent (s.exponentChars ++ rest) =
    (s.exponent.map Exponent.value, rest) := by
  unfold exponentChars
  cases h : s.exponent with
  | none => exact takeExponent_none fun c hc => (ends c hc).2.2
  | some e =>
    rw [elim_some, cons_append, append_assoc]
    exact takeExponent_eq (hso.exponent e h) fun c hc => (ends c hc).1

theorem readNumber_chars (neg : Bool)
    (hsh : s.fraction = none → s.exponent = none → s.whole.length ≤ maxDigits) :
    readNumber (signChars neg ++ (s.chars ++ rest)) = .ok (s.json neg, rest) := by
  have hw : takeWhole? (s.chars ++ rest) =
      some (s.whole, s.fractionChars ++ (s.exponentChars ++ rest)) := by
    rw [chars, append_assoc, append_assoc]
    exact takeWhole?_eq hso.whole hso.lead (head_fractionChars hso ends)
  have hf := takeFraction_chars hso ends
  have he := takeExponent_chars hso ends
  unfold readNumber
  split
  next sign cs hs =>
    obtain ⟨rfl, rfl⟩ : sign = neg ∧ cs = s.chars ++ rest := by
      split at hs
      next behind hm =>
        cases hs
        cases neg with
        | true => exact ⟨rfl, (cons.inj hm).2.symm⟩
        | false =>
          have first : '-' ∈ s.whole.head? := by
            obtain ⟨d, ds, hp⟩ := exists_cons_of_ne_nil hso.whole.1
            rw [signChars, if_neg Bool.false_ne_true, nil_append, chars, hp] at hm
            rw [hp, (cons.inj hm).1]
            rfl
          exact absurd (hso.whole.2 '-' (mem_of_mem_head? first)) (by decide)
      next hpl =>
        cases hs
        cases neg with
        | true => exact absurd rfl (hpl _)
        | false => exact ⟨rfl, rfl⟩
    rw [hw]
    dsimp only
    rw [hf]
    rw [he]
    rw [isNone_map, json]
    split
    next hb =>
      have hb : s.fraction = none ∧ s.exponent = none := by simpa using hb
      rw [if_neg (not_lt.2 (hsh hb.1 hb.2))]
    next => rfl

end Spelling

/-! ## The parts that are read -/

section Taken

variable {cs ds rest : List Char}

theorem sound_of_takeWhole? (h : takeWhole? cs = some (ds, rest)) :
    cs = ds ++ rest ∧ AreDigits ds ∧ (ds = ['0'] ∨ ds.head? ≠ some '0') := by
  unfold takeWhole? at h
  split at h
  · cases h
    exact ⟨rfl, ⟨by simp, by simp⟩, .inl rfl⟩
  next d _ ho =>
    split at h
    next hd =>
      cases h
      refine ⟨by simp, ⟨cons_ne_nil _ _, ?_⟩, .inr fun zero => ho (some.inj zero)⟩
      exact forall_mem_cons.2 ⟨hd, fun c hc => mem_takeWhile_imp hc⟩
    next => cases h
  · cases h

theorem sound_of_takeFraction {frac : Option (List Char)} (h : takeFraction cs = (frac, rest)) :
    cs = frac.elim [] ('.' :: ·) ++ rest ∧ ∀ ds ∈ frac, AreDigits ds := by
  unfold takeFraction at h
  split at h
  · split at h
    next hd =>
      cases h
      refine ⟨by simp, ?_⟩
      rintro _ ⟨⟩
      refine ⟨cons_ne_nil _ _, ?_⟩
      exact forall_mem_cons.2 ⟨hd, fun c hc => mem_takeWhile_imp hc⟩
    next =>
      cases h
      exact ⟨rfl, by simp⟩
  · cases h
    exact ⟨rfl, by simp⟩

theorem sign_of_takeSign {neg : Bool} (h : takeSign cs = (neg, rest)) :
    ∃ sign, cs = sign ++ rest ∧ (sign = [] ∨ sign = ['+'] ∨ sign = ['-']) ∧
      (neg ↔ sign = ['-']) := by
  unfold takeSign at h
  split at h
  · cases h
    exact ⟨['-'], rfl, by simp, by simp⟩
  · cases h
    exact ⟨['+'], rfl, by simp, by simp⟩
  · cases h
    exact ⟨[], rfl, by simp, by simp⟩

theorem sound_of_takeExponent {v : Option Int} (h : takeExponent cs = (v, rest)) :
    ∃ exp : Option Exponent, v = exp.map Exponent.value ∧
      cs = (exp.elim [] fun e => e.mark :: (e.sign ++ e.digits)) ++ rest ∧ ∀ e ∈ exp, e.Sound := by
  unfold takeExponent at h
  split at h
  · cases h
    exact ⟨none, rfl, rfl, by simp⟩
  next m _ =>
  split at h
  next hma =>
    split at h
    next neg behind hs =>
    obtain ⟨sign, rfl, hsi, hm⟩ := sign_of_takeSign hs
    dsimp only at h
    split at h
    next =>
      cases h
      exact ⟨none, rfl, rfl, by simp⟩
    next some =>
      cases h
      refine ⟨.some ⟨m, sign, behind.takeWhile Char.isDigit⟩, ?_, by simp, ?_⟩
      · simp only [map_some, Exponent.value, hm]
      · rintro _ ⟨⟩
        refine ⟨by simpa using hma, hsi, fun none => some ?_, fun c hc => mem_takeWhile_imp hc⟩
        exact isEmpty_iff.2 none
  next =>
    cases h
    exact ⟨none, rfl, rfl, by simp⟩

theorem exists_spelling_of_readNumber {v : Json} (h : readNumber cs = .ok (v, rest)) :
    ∃ neg, ∃ s : Spelling, s.Sound ∧ v = s.json neg ∧ cs = signChars neg ++ (s.chars ++ rest) ∧
      (s.fraction = none → s.exponent = none → s.whole.length ≤ maxDigits) := by
  unfold readNumber at h
  split at h
  next neg behind hs =>
  have hte : cs = signChars neg ++ behind := by
    split at hs <;> cases hs <;> rfl
  split at h
  · cases h
  next ht =>
  split at h
  next hta' =>
  split at h
  next ht' =>
  obtain ⟨rfl, hw, hl⟩ := sound_of_takeWhole? ht
  obtain ⟨rfl, hf⟩ := sound_of_takeFraction hta'
  obtain ⟨exp, rfl, rfl, hp⟩ := sound_of_takeExponent ht'
  refine ⟨neg, ⟨_, _, exp⟩, ⟨hw, hl, hf, hp⟩, ?_⟩
  rw [isNone_map] at h
  split at h
  next hb =>
    split at h
    · cases h
    next few =>
      cases h
      refine ⟨(if_pos hb).symm, ?_, fun _ _ => not_lt.1 few⟩
      simpa [Spelling.chars, Spelling.fractionChars, Spelling.exponentChars] using hte
  next float =>
    cases h
    refine ⟨(if_neg float).symm, ?_, fun none hn' => absurd (by simp_all) float⟩
    simpa [Spelling.chars, Spelling.fractionChars, Spelling.exponentChars] using hte

end Taken

/-! ## Whole numbers -/

variable {x : Float} (n : Nat)

theorem areDigits_toDigits : AreDigits (toDigits 10 n) :=
  ⟨toDigits_ne_nil, fun _ => isDigit_of_mem_toDigits (by decide) (by decide)⟩

theorem head?_toDigits {n : Nat} (pos : 0 < n) : (toDigits 10 n).head? ≠ some '0' := by
  induction n using Nat.strong_induction_on with
  | h n ih =>
    rw [toDigits_eq_if (by decide)]
    split
    next one =>
      interval_cases n <;> decide
    next hm =>
      rw [head?_append_of_ne_nil _ toDigits_ne_nil]
      exact ih (n / 10) (by omega) (by omega)

theorem decimalOf_append (ds es : List Char) :
    decimalOf (ds ++ es) = 10 ^ es.length * decimalOf ds + decimalOf es :=
  (ofDigitChars_append 0).trans ofDigitChars_eq_ofDigitChars_zero

theorem decimalOf_zeros : decimalOf (replicate n '0') = 0 := ofDigitChars_replicate_zero

def Spelling.ofNat (n : Nat) : Spelling :=
  ⟨Nat.toDigits 10 n, none, none⟩

theorem Spelling.sound_ofNat : (Spelling.ofNat n).Sound := by
  refine ⟨areDigits_toDigits n, ?_, fun _ h => (by cases h), fun _ h => (by cases h)⟩
  rcases Nat.eq_zero_or_pos n with rfl | pos
  · exact .inl rfl
  · exact .inr (head?_toDigits pos)

theorem Spelling.json_ofNat (n : Int) : (Spelling.ofNat n.natAbs).json (decide (n < 0)) = .int n := by
  change Json.int _ = .int n
  rw [Spelling.ofNat, decimalOf_toDigits]
  congr 1
  by_cases hn : n < 0
  · rw [if_pos (decide_eq_true hn)]
    omega
  · rw [if_neg (by simpa using hn)]
    omega

theorem readNumber_ofInt {n : Int} (hasText : hasText n) {rest : List Char}
    (ends : EndsNumber rest) : readNumber ((ofInt n).toList ++ rest) = .ok (.int n, rest) := by
  rw [Decimal.hasText, decide_eq_true_eq, pow_eq] at hasText
  have short := (length_toDigits_le_iff (by decide) (by decide)).2 hasText
  have read := Spelling.readNumber_chars (Spelling.sound_ofNat n.natAbs) ends (decide (n < 0))
    fun _ _ => short
  have chars : (Spelling.ofNat n.natAbs).chars = toDigits 10 n.natAbs := append_nil _
  rw [Spelling.json_ofNat, chars] at read
  rw [toList_ofInt, append_assoc]
  exact read

/-! ## Floats -/

def Spelling.scaled (s : Spelling) : Scaled :=
  ⟨decimalOf (s.whole ++ s.fraction.getD []), s.power - (s.fraction.getD []).length⟩

theorem Spelling.json_of_float {s : Spelling}
    (float : (s.fraction.isNone && s.exponent.isNone) = false) (neg : Bool) :
    s.json neg = .float (ofScaled neg s.scaled.digits s.scaled.exponent) := by
  rw [json, float, if_neg Bool.false_ne_true, Numeral.toFloat, scaled]

theorem Spelling.value_scaled {s : Spelling} {d : Scaled} (k : Nat)
    (digits : s.scaled.digits = 10 ^ k * d.digits) (he : s.scaled.exponent + k = d.exponent) :
    s.scaled.value = d.value := by
  unfold Scaled.value
  rw [digits, ← he, zpow_add₀ (by norm_num), zpow_natCast]
  push_cast
  ring

theorem AreDigits.append {ds es : List Char} (hds : ∀ d ∈ ds, d.isDigit) (hes : AreDigits es) :
    AreDigits (ds ++ es) :=
  ⟨append_ne_nil_of_right_ne_nil _ hes.1, forall_mem_append.2 ⟨hds, hes.2⟩⟩

theorem isDigit_of_mem_zeros : ∀ d ∈ replicate n '0', d.isDigit := by
  intro d hd
  rw [eq_of_mem_replicate hd]
  rfl

theorem toList_padded (wd n : Nat) : AreDigits (padded wd n).toList ∧
    decimalOf (padded wd n).toList = n := by
  rw [padded, String.toList_ofList]
  refine ⟨AreDigits.append (isDigit_of_mem_zeros _) (areDigits_toDigits n), ?_⟩
  rw [decimalOf_append, decimalOf_zeros, decimalOf_toDigits, mul_zero, zero_add]

/-- The parts of a number say a decimal in one of its layouts. -/
structure Spelling.Spells (s : Spelling) (d : Scaled) (text : List Char) : Prop where
  sound : s.Sound
  chars : s.chars = text
  value : s.scaled.value = d.value
  float : (s.fraction.isNone && s.exponent.isNone) = false

section Layouts

variable {d : Scaled} (pos : 0 < d.digits)

include pos

theorem spells_whole {n : Nat} (he : d.exponent = n) :
    (⟨toDigits 10 d.digits ++ replicate n '0', some ['0'], none⟩ : Spelling).Spells d
      (toDigits 10 d.digits ++ replicate n '0' ++ ['.', '0']) := by
  obtain ⟨hn, digits⟩ := areDigits_toDigits d.digits
  refine ⟨⟨?_, .inr ?_, ?_, by simp⟩, rfl, Spelling.value_scaled (n + 1) ?_ ?_, rfl⟩
  · refine ⟨append_ne_nil_of_left_ne_nil hn _, ?_⟩
    exact forall_mem_append.2 ⟨digits, isDigit_of_mem_zeros n⟩
  · rw [head?_append_of_ne_nil _ hn]
    exact head?_toDigits pos
  · rintro ds ⟨⟩
    exact ⟨by simp, by simp⟩
  · change decimalOf (toDigits 10 d.digits ++ replicate n '0' ++ ['0']) = _
    rw [decimalOf_append, decimalOf_append, decimalOf_zeros, decimalOf_toDigits, length_replicate]
    change 10 ^ 1 * (10 ^ n * d.digits + 0) + 0 = _
    ring
  · change (0 : Int) - 1 + ((n + 1 : Nat) : Int) = d.exponent
    rw [he]
    push_cast
    ring

theorem spells_split {n : Nat} (some : 0 < n) (hl : n < (toDigits 10 d.digits).length)
    (he : d.exponent + (toDigits 10 d.digits).length = n) :
    (⟨(toDigits 10 d.digits).take n, .some ((toDigits 10 d.digits).drop n), none⟩ :
      Spelling).Spells d
      ((toDigits 10 d.digits).take n ++ ('.' :: (toDigits 10 d.digits).drop n)) := by
  obtain ⟨hn, digits⟩ := areDigits_toDigits d.digits
  refine ⟨⟨⟨?_, fun c hc => digits c (mem_of_mem_take hc)⟩, .inr ?_, ?_, by simp⟩, ?_,
    Spelling.value_scaled 0 ?_ ?_, rfl⟩
  · simpa [hn] using some.ne'
  · rw [head?_take, if_neg some.ne']
    exact head?_toDigits pos
  · rintro ds ⟨⟩
    exact ⟨by simpa using hl, fun c hc => digits c (mem_of_mem_drop hc)⟩
  · simp [Spelling.chars, Spelling.fractionChars, Spelling.exponentChars]
  · change decimalOf (_ ++ drop n _) = _
    rw [take_append_drop, decimalOf_toDigits, pow_zero, one_mul]
  · change (0 : Int) - ((toDigits 10 d.digits).drop n).length + (0 : Nat) = d.exponent
    rw [length_drop]
    omega

omit pos in
theorem spells_small {n : Nat} (he : d.exponent + (toDigits 10 d.digits).length = -n) :
    (⟨['0'], some (replicate n '0' ++ toDigits 10 d.digits), none⟩ : Spelling).Spells d
      (['0', '.'] ++ (replicate n '0' ++ toDigits 10 d.digits)) := by
  refine ⟨⟨⟨by simp, by simp⟩, .inl rfl, ?_, by simp⟩, ?_, Spelling.value_scaled 0 ?_ ?_, rfl⟩
  · rintro ds ⟨⟩
    exact AreDigits.append (isDigit_of_mem_zeros n) (areDigits_toDigits _)
  · simp [Spelling.chars, Spelling.fractionChars, Spelling.exponentChars]
  · change decimalOf (['0'] ++ (replicate n '0' ++ toDigits 10 d.digits)) = _
    rw [decimalOf_append, decimalOf_append, decimalOf_zeros, decimalOf_toDigits]
    change _ * 0 + (_ * 0 + d.digits) = _
    ring
  · change (0 : Int) - (replicate n '0' ++ toDigits 10 d.digits).length + (0 : Nat) = _
    rw [length_append, length_replicate]
    push_cast
    omega

theorem spells_scientific {lead : Int} (hex : d.exponent + (toDigits 10 d.digits).length - 1 = lead) :
    (⟨(toDigits 10 d.digits).take 1, if ((toDigits 10 d.digits).drop 1).isEmpty then none
        else some ((toDigits 10 d.digits).drop 1),
      some ⟨'e', [if lead < 0 then '-' else '+'], (padded 2 lead.natAbs).toList⟩⟩ :
      Spelling).Spells d
      ((toDigits 10 d.digits).take 1 ++ ((if ((toDigits 10 d.digits).drop 1).isEmpty then []
          else '.' :: (toDigits 10 d.digits).drop 1) ++
        ('e' :: (if lead < 0 then '-' else '+') :: (padded 2 lead.natAbs).toList))) := by
  obtain ⟨hno, digits⟩ := areDigits_toDigits d.digits
  obtain ⟨hp, hpo⟩ := toList_padded 2 lead.natAbs
  have hf : (if ((toDigits 10 d.digits).drop 1).isEmpty then none
      else some ((toDigits 10 d.digits).drop 1)).getD [] = (toDigits 10 d.digits).drop 1 := by
    split
    next none => exact (isEmpty_iff.1 none).symm
    next => rfl
  refine ⟨⟨⟨?_, fun c hc => digits c (mem_of_mem_take hc)⟩, .inr ?_, ?_, ?_⟩, ?_,
    Spelling.value_scaled 0 ?_ ?_, ?_⟩
  · simp
  · rw [head?_take, if_neg one_ne_zero]
    exact head?_toDigits pos
  · intro ds hds
    split at hds
    · cases hds
    next some =>
      cases hds
      exact ⟨by simpa using some, fun c hc => digits c (mem_of_mem_drop hc)⟩
  · intro e he
    rw [← mem_some_iff.1 he]
    refine ⟨.inl rfl, .inr ?_, hp⟩
    split
    · exact .inr rfl
    · exact .inl rfl
  · unfold Spelling.chars Spelling.fractionChars Spelling.exponentChars
    split <;> rfl
  · change decimalOf (_ ++ Option.getD _ []) = _
    rw [hf, take_append_drop, decimalOf_toDigits, pow_zero, one_mul]
  · unfold Spelling.scaled Spelling.power
    dsimp only [map_some, getD_some, Exponent.value]
    rw [hf, hpo, length_drop]
    have := length_toDigits_pos (b := 10) (n := d.digits)
    by_cases hn : lead < 0
    · rw [if_pos hn, if_pos rfl]
      omega
    · rw [if_neg hn, if_neg (by decide)]
      omega
  · rw [isNone_some, Bool.and_false]

theorem exists_spells_layout : ∃ s : Spelling, s.Spells d d.layout.toList := by
  have hl := length_toDigits_pos (b := 10) (n := d.digits)
  unfold Scaled.layout
  extract_lets ds lead all frac
  have hlead : d.exponent + (toDigits 10 d.digits).length - 1 = lead := rfl
  split
  · split
    next hno =>
      obtain ⟨n, hn⟩ := Int.eq_ofNat_of_zero_le hno
      rw [String.toList_append, String.toList_ofList, String.toList_ofList, hn]
      exact ⟨_, spells_whole pos hn⟩
    next hne =>
      split
      next hi =>
        have hwhole : (all : Int) = lead + 1 := Int.toNat_of_nonneg (by omega)
        rw [String.toList_append, String.toList_append, String.toList_ofList, String.toList_ofList,
          String.toList_ofList, append_assoc]
        refine ⟨_, spells_split pos ?_ ?_ ?_⟩ <;> omega
      next ho =>
        rw [String.toList_append, String.toList_ofList, String.toList_ofList]
        refine ⟨_, spells_small ?_⟩
        omega
  · have ht : (String.ofList (ds.take 1) ++ (if frac.isEmpty then "" else "." ++ String.ofList frac) ++
          (if lead < 0 then "e-" else "e+") ++ padded 2 lead.natAbs).toList =
        ds.take 1 ++ ((if frac.isEmpty then [] else '.' :: frac) ++
          ('e' :: (if lead < 0 then '-' else '+') :: (padded 2 lead.natAbs).toList)) := by
      simp only [String.toList_append, String.toList_ofList, append_assoc]
      congr 1
      split <;> split <;> simp
    rw [ht]
    exact ⟨_, spells_scientific pos hlead⟩

end Layouts

theorem Spelling.json_zero (zero : (Binary.ofBits x.toBits).mantissa = 0) :
    (⟨['0'], some ['0'], none⟩ : Spelling).json (signBit x) = .float x := by
  obtain ⟨hst, -⟩ := Binary.standard_ofBits x.toBits
  have hb : (Binary.ofBits x.toBits).bits = 0 := by
    have he := hst.leading
    unfold Binary.bits
    omega
  have hs := ofBits_signed x
  rw [hb] at hs
  exact congrArg Json.float hs

theorem exists_spelling_float (hf : isFinite x) :
    ∃ s : Spelling, s.Sound ∧ (finiteText x).toList = signChars (signBit x) ++ s.chars ∧
      (s.fraction.isNone && s.exponent.isNone) = false ∧ s.json (signBit x) = .float x := by
  have hs (body : String) : (if signBit x then "-" ++ body else body).toList =
      signChars (signBit x) ++ body.toList := by
    unfold signChars
    split
    · rw [String.toList_append]
      rfl
    · rfl
  unfold finiteText
  rw [hs]
  by_cases zero : (Binary.ofBits x.toBits).mantissa = 0
  · refine ⟨⟨['0'], some ['0'], none⟩, ?_, ?_, rfl, Spelling.json_zero zero⟩
    · exact ⟨⟨by simp, by simp⟩, .inl rfl, by simp [AreDigits], by simp⟩
    · rw [if_pos (beq_iff_eq.2 zero)]
      rfl
  · have pos := pos_of_ne_zero zero
    have hn := Binary.encloses_shortest pos
    have digits := hn.digits_pos pos
    obtain ⟨s, hsou, hc, hv, float⟩ := exists_spells_layout digits
    rw [← hv] at hn
    refine ⟨s, hsou, ?_, float, ?_⟩
    · have ho : ¬ ((Binary.ofBits x.toBits).mantissa == 0) := by simpa using zero
      rw [hc, if_neg ho]
    · rw [Spelling.json_of_float float, ofScaled_eq hf pos hn]

theorem readNumber_finiteText (hfi : isFinite x) {rest : List Char} (ends : EndsNumber rest) :
    readNumber ((finiteText x).toList ++ rest) = .ok (.float x, rest) := by
  obtain ⟨s, hs, ht, float, hd⟩ := exists_spelling_float hfi
  rw [ht, append_assoc, ← hd]
  refine Spelling.readNumber_chars hs ends _ fun hf he => ?_
  rw [hf, he] at float
  cases float

end Appwright.Json
