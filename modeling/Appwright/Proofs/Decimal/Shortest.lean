import Appwright.Decimal.Reading
import Appwright.Decimal.Shortest
import Appwright.Proofs.Decimal.Bits

/-!
# Floats and their shortest decimals

The reals that round to a float are those between the halfway points to its neighbours
(`Binary.Encloses`). The decimal that a float is written with lies among them, whichever the search
for it ends with (`Binary.encloses_shortest`). The bits nearest to such a decimal are those of the
float (`Binary.Encloses.nearestBits_eq`), so reading it gives the float back, with its sign
(`ofScaled_eq`).
-/

namespace Appwright.Decimal

open Binary Nat

def Scaled.value (d : Scaled) : ℚ :=
  d.digits * 10 ^ d.exponent

theorem compareScaled_eq (d : Scaled) (n : ℕ) (j : ℤ) :
    compareScaled d.digits d.exponent n j = compare d.value (n * 2 ^ j) := by
  obtain ⟨a, i⟩ := d
  have ten : (10 : ℚ) ≠ 0 := by norm_num
  have hs : (0 : ℚ) < 10 ^ (-i).toNat * 2 ^ (-j).toNat := by positivity
  have left : ((a * Nat.pow 10 i.toNat * Nat.pow 2 (-j).toNat : ℕ) : ℚ) =
      a * 10 ^ i * (10 ^ (-i).toNat * 2 ^ (-j).toNat) := by
    rw [zpow_eq_toNat_div ten i]
    simp only [pow_eq]
    push_cast
    field_simp
  have right : ((n * Nat.pow 2 j.toNat * Nat.pow 10 (-i).toNat : ℕ) : ℚ) =
      n * 2 ^ j * (10 ^ (-i).toNat * 2 ^ (-j).toNat) := by
    rw [zpow_eq_toNat_div two_ne_zero j]
    simp only [pow_eq]
    push_cast
    field_simp
  unfold compareScaled Scaled.value
  rcases lt_trichotomy ((a : ℚ) * 10 ^ i) (n * 2 ^ j) with hl | hsa | hm
  · have hl' := mul_lt_mul_of_pos_right hl hs
    rw [← left, ← right, cast_lt] at hl'
    rw [compare_lt_iff_lt.2 hl, compare_lt_iff_lt.2 hl']
  · have hs' := congrArg (· * (10 ^ (-i).toNat * 2 ^ (-j).toNat : ℚ)) hsa
    simp only [← left, ← right, Nat.cast_inj] at hs'
    rw [compare_eq_iff_eq.2 hsa, compare_eq_iff_eq.2 hs']
  · have hm' := mul_lt_mul_of_pos_right hm hs
    rw [← left, ← right, cast_lt] at hm'
    rw [compare_gt_iff_gt.2 hm, compare_gt_iff_gt.2 hm']

/-! ## The reals that round to a float -/

def Binary.lower (x : Binary) : ℚ :=
  x.mantissa - if x.narrowBelow then 1 / 4 else 1 / 2

/-- A number lies between the halfway points to the neighbours of a float. A halfway point itself
belongs to the even mantissa. -/
structure Binary.Encloses (x : Binary) (v : ℚ) : Prop where
  low : x.lower * 2 ^ x.exponent ≤ v
  high : v ≤ (x.mantissa + 1 / 2) * 2 ^ x.exponent
  ends : v = x.lower * 2 ^ x.exponent ∨ v = (x.mantissa + 1 / 2) * 2 ^ x.exponent →
    x.mantissa % 2 = 0

theorem Binary.readsBack_iff {x : Binary} (pos : 0 < x.mantissa) (d : Scaled) :
    x.readsBack d ↔ x.Encloses d.value := by
  have hq : (2 : ℚ) ^ (x.exponent - 2) = 2 ^ x.exponent / 4 := by
    rw [zpow_sub₀ two_ne_zero]
    norm_num
  have low : (((if x.narrowBelow then 4 * x.mantissa - 1 else 4 * x.mantissa - 2 : ℕ)) : ℚ) *
      2 ^ (x.exponent - 2) = x.lower * 2 ^ x.exponent := by
    rw [hq, lower]
    split
    · rw [cast_sub (by omega)]
      push_cast
      ring
    · rw [cast_sub (by omega)]
      push_cast
      ring
  have high : ((4 * x.mantissa + 2 : ℕ) : ℚ) * 2 ^ (x.exponent - 2) =
      (x.mantissa + 1 / 2) * 2 ^ x.exponent := by
    rw [hq]
    push_cast
    ring
  unfold readsBack
  simp only [compareScaled_eq, low, high, Bool.and_eq_true, Bool.or_eq_true, beq_iff_eq,
    compare_gt_iff_gt, compare_lt_iff_lt, compare_eq_iff_eq]
  constructor
  · rintro ⟨hb, ha⟩
    refine ⟨?_, ?_, ?_⟩
    · rcases hb with hl | ⟨-, hs⟩
      · exact hl.le
      · exact hs.ge
    · rcases ha with hl | ⟨-, hs⟩
      · exact hl.le
      · exact hs.le
    · rintro (hs | hs)
      · rcases hb with hl | ⟨he, -⟩
        · exact absurd hs hl.ne'
        · exact he
      · rcases ha with hl | ⟨he, -⟩
        · exact absurd hs hl.ne
        · exact he
  · intro near
    constructor
    · rcases near.low.lt_or_eq with hl | hs
      · exact .inl hl
      · exact .inr ⟨near.ends (.inl hs.symm), hs.symm⟩
    · rcases near.high.lt_or_eq with hl | hs
      · exact .inl hl
      · exact .inr ⟨near.ends (.inr hs), hs⟩

variable (x : Binary)

theorem Binary.lower_lt : x.lower < x.mantissa := by
  unfold lower
  split <;> linarith

theorem Binary.le_lower : (x.mantissa : ℚ) - 1 / 2 ≤ x.lower := by
  unfold lower
  split <;> linarith

theorem Binary.encloses_value : x.Encloses x.value := by
  have gap := two_zpow_pos x.exponent
  have low : x.lower * 2 ^ x.exponent < x.value := mul_lt_mul_of_pos_right x.lower_lt gap
  have high : x.value < (x.mantissa + 1 / 2) * 2 ^ x.exponent := mul_lt_mul_of_pos_right (by linarith) gap
  refine ⟨low.le, high.le, ?_⟩
  rintro (hs | hs)
  · exact absurd hs low.ne'
  · exact absurd hs high.ne

section Nearest

variable {x : Binary} {v : ℚ} (near : x.Encloses v)

include near

theorem Binary.Encloses.pos (pos : 0 < x.mantissa) : 0 < v := by
  have one : (1 : ℚ) ≤ x.mantissa := by exact_mod_cast pos
  have := x.le_lower
  exact (mul_pos (by linarith) (two_zpow_pos x.exponent)).trans_le near.low

variable (hst : x.Standard)

include hst

theorem Binary.Encloses.lt : v < 2 ^ (x.exponent + 53) := by
  have hd : (x.mantissa : ℚ) + 1 ≤ 2 ^ 53 := by exact_mod_cast hst.digits
  calc v ≤ (x.mantissa + 1 / 2) * 2 ^ x.exponent := near.high
    _ < 2 ^ 53 * 2 ^ x.exponent := mul_lt_mul_of_pos_right (by linarith) (two_zpow_pos _)
    _ = 2 ^ (x.exponent + 53) := by rw [zpow_add₀ two_ne_zero, mul_comm]; norm_num

/-- The scaled number rounds to the mantissa of the float, unless it has one binary digit less: then
the float is a power of two, and the number rounds up to it. -/
theorem Binary.Encloses.rounds (pos : 0 < x.mantissa) :
    gridExponent v = x.exponent ∧ Rounds (v / 2 ^ gridExponent v) x.mantissa ∨
    gridExponent v = x.exponent - 1 ∧ x.mantissa = 2 ^ 52 ∧ -1074 < x.exponent ∧
      Rounds (v / 2 ^ gridExponent v) (2 ^ 53) := by
  have gap := two_zpow_pos x.exponent
  by_cases within : x.exponent = -1074 ∨ 2 ^ (x.exponent + 52) ≤ v
  · have exponent := gridExponent_eq (near.pos pos) hst.least (near.lt hst) within
    refine .inl ⟨exponent, ?_⟩
    rw [exponent]
    refine ⟨?_, ?_, ?_⟩
    · rw [le_div_iff₀ gap]
      exact (mul_le_mul_of_nonneg_right x.le_lower gap.le).trans near.low
    · rw [div_le_iff₀ gap]
      exact near.high
    · rintro (same | same)
      · rw [div_eq_iff gap.ne'] at same
        refine near.ends (.inl (le_antisymm ?_ near.low))
        rw [same]
        exact mul_le_mul_of_nonneg_right x.le_lower gap.le
      · rw [div_eq_iff gap.ne'] at same
        exact near.ends (.inr same)
  · obtain ⟨higher, less⟩ := not_or.1 within
    have less : v < 2 ^ (x.exponent + 52) := not_le.1 less
    have power : (2 : ℚ) ^ (x.exponent + 52) = 2 ^ 52 * 2 ^ x.exponent := by
      rw [zpow_add₀ two_ne_zero, mul_comm]
      norm_num
    have below : x.lower < 2 ^ 52 := by
      rw [power] at less
      exact lt_of_mul_lt_mul_right (near.low.trans_lt less) gap.le
    have mantissa : x.mantissa = 2 ^ 52 := by
      have leading := hst.leading.resolve_left higher
      by_contra other
      have : (2 ^ 52 : ℚ) + 1 ≤ x.mantissa := by exact_mod_cast lt_of_le_of_ne leading (Ne.symm other)
      linarith [x.le_lower]
    have inner : -1074 < x.exponent := lt_of_le_of_ne hst.least (Ne.symm higher)
    have lower : x.lower = 2 ^ 52 - 1 / 4 := by
      rw [lower, if_pos (hst.narrow.2 ⟨mantissa, inner⟩), mantissa]
      norm_num
    have half : (2 : ℚ) ^ x.exponent = 2 * 2 ^ (x.exponent - 1) := by
      rw [zpow_sub₀ two_ne_zero]
      norm_num
      ring
    have low := near.low
    have gap' := two_zpow_pos (x.exponent - 1)
    rw [lower, half] at low
    rw [power, half] at less
    have exponent : gridExponent v = x.exponent - 1 := by
      refine gridExponent_eq (near.pos pos) (by omega) ?_ (.inr ?_)
      · rw [show x.exponent - 1 + 53 = x.exponent + 52 by ring, power, half]
        exact less
      · rw [zpow_add₀ two_ne_zero]
        norm_num
        nlinarith
    refine .inr ⟨exponent, mantissa, inner, ?_⟩
    rw [exponent]
    refine ⟨?_, ?_, ?_⟩
    · rw [le_div_iff₀ gap']
      norm_num
      linarith
    · rw [div_le_iff₀ gap']
      norm_num
      linarith
    · intro _
      norm_num

theorem Binary.Encloses.nearestBits_eq {num den : ℕ} (hnum : 0 < num) (hden : 0 < den)
    (hv : v = num / den) (pos : 0 < x.mantissa) (hf : x.bits < infinityBits) :
    nearestBits num den = x.bits := by
  subst hv
  have hl := hst.least
  unfold bits at hf ⊢
  rcases near.rounds hst pos with ⟨he, hr⟩ | ⟨he, hm, hi, hr⟩
  · rw [Decimal.nearestBits_eq hnum hden hr, he]
    exact min_eq_left hf.le
  · rw [Decimal.nearestBits_eq hnum hden hr, he]
    omega

end Nearest

/-! ## The decimal that a float is written with -/

theorem Binary.value_exact (x : Binary) : x.exact.value = x.value := by
  unfold exact Scaled.value value
  simp only [pow_eq]
  push_cast
  by_cases hw : 0 ≤ x.exponent
  · obtain ⟨n, hn⟩ := Int.eq_ofNat_of_zero_le hw
    simp [hn]
  · obtain ⟨n, hn⟩ := Int.eq_ofNat_of_zero_le (by omega : 0 ≤ -x.exponent)
    have he : x.exponent = -(n : ℤ) := by omega
    have hb : -(n : ℤ) < 0 := by omega
    rw [he, if_pos hb, zpow_neg, zpow_neg, show (10 : ℚ) = 2 * 5 by norm_num]
    simp only [neg_neg, Int.toNat_natCast, Int.toNat_neg_natCast, zpow_natCast, mul_pow]
    field_simp

theorem Scaled.value_strip (fuel : ℕ) (d : Scaled) : (d.strip fuel).value = d.value := by
  induction fuel generalizing d with
  | zero => rfl
  | succ fuel ih =>
    rw [Scaled.strip]
    split
    next zero =>
      have ht : d.digits = d.digits / 10 * 10 := by
        simp at zero
        omega
      rw [ih, Scaled.value, Scaled.value]
      rw [zpow_add_one₀ (by norm_num)]
      conv_rhs => rw [ht]
      push_cast
      ring
    next => rfl

variable {x : Binary} {d : Scaled}

theorem Binary.encloses_of_onGrid? (pos : 0 < x.mantissa) {e : ℤ} (hf : x.onGrid? e = some d) :
    x.Encloses d.value := by
  rw [← readsBack_iff pos]
  unfold onGrid? at hf
  dsimp only at hf
  split at hf
  next hl hu =>
    split at hf
    · cases hf
      exact hl
    · cases hf
      exact hu
    · cases hf
      split
      · exact hl
      · exact hu
  next hl _ =>
    cases hf
    exact hl
  next _ hu =>
    cases hf
    exact hu
  next => cases hf

/-- Whether the search finds a decimal or falls back on the exact one, a float rounds to itself. -/
theorem Binary.encloses_shortest (pos : 0 < x.mantissa) : x.Encloses x.shortest.value := by
  unfold shortest
  rw [Scaled.value_strip]
  cases hf : (List.range 17).findSome? fun n : ℕ =>
      x.onGrid? (leadingPower x.ratio.1 x.ratio.2 - (n + 1)) with
  | none =>
    rw [Option.getD_none, value_exact]
    exact x.encloses_value
  | some d =>
    obtain ⟨n, -, here⟩ := List.exists_of_findSome?_eq_some hf
    exact encloses_of_onGrid? pos here

/-! ## Reading decimals -/

theorem Scaled.value_bounds (pos : 0 < d.digits) :
    (10 : ℚ) ^ (d.exponent + (toDigits 10 d.digits).length - 1) ≤ d.value ∧
      d.value < 10 ^ (d.exponent + (toDigits 10 d.digits).length) := by
  have ten : (10 : ℚ) ≠ 0 := by norm_num
  have hu : (0 : ℚ) < 10 ^ d.exponent := by positivity
  obtain ⟨k, hk⟩ : ∃ k, (toDigits 10 d.digits).length = k + 1 :=
    exists_eq_add_one.2 length_toDigits_pos
  have high : d.digits < 10 ^ (k + 1) := (length_toDigits_le_iff (by decide) (by omega)).1 hk.le
  have low : 10 ^ k ≤ d.digits := by
    by_contra! hl
    cases k with
    | zero => omega
    | succ k =>
      have := (length_toDigits_le_iff (by decide) (by omega)).2 hl
      omega
  have low : (10 : ℚ) ^ k ≤ d.digits := by exact_mod_cast low
  have high : (d.digits : ℚ) < 10 ^ (k + 1) := by exact_mod_cast high
  rw [hk, Scaled.value]
  constructor
  · rw [show d.exponent + ((k + 1 : ℕ) : ℤ) - 1 = (k : ℤ) + d.exponent by push_cast; ring,
      zpow_add₀ ten, zpow_natCast]
    exact mul_le_mul_of_nonneg_right low hu.le
  · rw [add_comm, zpow_add₀ ten, zpow_natCast]
    exact mul_lt_mul_of_pos_right high hu

theorem two_pow_le_ten_pow : (2 : ℚ) ^ 1075 ≤ 10 ^ 400 := by
  calc (2 : ℚ) ^ 1075 ≤ 2 ^ (13 * 100) := pow_le_pow_right₀ one_le_two (by norm_num)
    _ = (2 ^ 13) ^ 100 := pow_mul _ _ _
    _ ≤ (10 ^ 4) ^ 100 := pow_le_pow_left₀ (by norm_num) (by norm_num) _
    _ = 10 ^ 400 := (pow_mul _ _ _).symm

/-- Floats are far from the powers of ten at which reading stops computing. -/
theorem Binary.Encloses.bounds {v : ℚ} (near : x.Encloses v) (hst : x.Standard)
    (pos : 0 < x.mantissa) (hf : x.bits < infinityBits) :
    (10 : ℚ) ^ (-400 : ℤ) ≤ v ∧ v < 10 ^ (400 : ℤ) := by
  have hl := hst.least
  have hm : x.exponent + 53 ≤ 1075 := by
    unfold bits infinityBits at hf
    omega
  have half : 1 / 2 ≤ x.lower := by
    have one : (1 : ℚ) ≤ x.mantissa := by exact_mod_cast pos
    linarith [x.le_lower]
  constructor
  · calc (10 : ℚ) ^ (-400 : ℤ) = (10 ^ 400)⁻¹ := zpow_neg _ _
      _ ≤ (2 ^ 1075)⁻¹ := inv_anti₀ (by positivity) two_pow_le_ten_pow
      _ = 1 / 2 * 2 ^ (-1074 : ℤ) := by
        rw [pow_succ, mul_inv, mul_comm, one_div]
        exact congrArg _ (zpow_neg (2 : ℚ) 1074).symm
      _ ≤ x.lower * 2 ^ x.exponent :=
        mul_le_mul half (zpow_le_zpow_right₀ one_le_two hl) (two_zpow_pos _).le (by linarith)
      _ ≤ v := near.low
  · calc v < 2 ^ (x.exponent + 53) := near.lt hst
      _ ≤ 2 ^ (1075 : ℤ) := zpow_le_zpow_right₀ one_le_two hm
      _ ≤ 10 ^ (400 : ℤ) := two_pow_le_ten_pow

theorem toNat_toBits (x : Float) : x.toBits.toNat =
    (if signBit x then 0x8000000000000000 else 0) + (ofBits x.toBits).bits := by
  have hr := x.toBits.toNat_lt
  rw [(standard_ofBits x.toBits).2]
  have hs : signBit x ↔ x.toBits.toNat / 2 ^ 63 = 1 := by
    unfold signBit
    rw [beq_iff_eq, ← UInt64.toNat_inj, UInt64.toNat_shiftRight]
    change x.toBits.toNat >>> 63 = 1 ↔ _
    rw [shiftRight_eq_div_pow]
  by_cases hn : signBit x
  · have := hs.1 hn
    rw [if_pos hn]
    omega
  · have := mt hs.2 hn
    rw [if_neg hn]
    omega

theorem ofBits_signed (x : Float) : Float.ofBits (UInt64.ofNat
    (if signBit x then 0x8000000000000000 + (ofBits x.toBits).bits
      else (ofBits x.toBits).bits)) = x := by
  have hb := toNat_toBits x
  have hs : (if signBit x then 0x8000000000000000 + (ofBits x.toBits).bits
      else (ofBits x.toBits).bits) = x.toBits.toNat := by
    rw [hb]
    split
    · rfl
    · rw [zero_add]
  rw [hs, UInt64.ofNat_toNat, Float.ofBits_toBits]

theorem eq_infinity {x : Float} (hi : isFinite x = false) (hn : x.isNaN = false) :
    x = if signBit x then -1.0 / 0.0 else 1.0 / 0.0 := by
  have hl : infinityBits ≤ x.toBits.toNat % 2 ^ 63 := by
    rw [← not_lt, ← isFinite_iff, hi]
    exact Bool.false_ne_true
  have hm : x.toBits.toNat % 2 ^ 63 ≤ infinityBits := by
    refine not_lt.1 fun ha => ?_
    rw [Float.isNaN_eq_decide_eq_nan, decide_eq_false_iff_not] at hn
    exact hn (eq_nan_of_lt ha)
  have hw := ofBits_signed x
  rw [(standard_ofBits x.toBits).2, le_antisymm hm hl] at hw
  refine hw.symm.trans ?_
  cases signBit x with
  | true | false => decide

theorem Binary.Encloses.digits_pos (near : x.Encloses d.value) (pos : 0 < x.mantissa) : 0 < d.digits := by
  have hu : (0 : ℚ) < 10 ^ d.exponent := by positivity
  have some : (0 : ℚ) < d.digits := (mul_pos_iff_of_pos_right hu).1 (near.pos pos)
  exact_mod_cast some

theorem ofScaled_eq {x : Float} (hf : isFinite x) (pos : 0 < (ofBits x.toBits).mantissa)
    (near : (ofBits x.toBits).Encloses d.value) : ofScaled (signBit x) d.digits d.exponent = x := by
  obtain ⟨hst, hbi⟩ := standard_ofBits x.toBits
  have hf' : (ofBits x.toBits).bits < infinityBits := hbi ▸ (isFinite_iff x).1 hf
  have hd := near.digits_pos pos
  obtain ⟨low, high⟩ := Scaled.value_bounds hd
  obtain ⟨low', high'⟩ := near.bounds hst pos hf'
  have hl : -400 < d.exponent + (toDigits 10 d.digits).length :=
    (zpow_lt_zpow_iff_right₀ (by norm_num)).1 (low'.trans_lt high)
  have hs : d.exponent + (toDigits 10 d.digits).length - 1 < 400 :=
    (zpow_lt_zpow_iff_right₀ (by norm_num)).1 (low.trans_lt high')
  have hb : ¬ d.exponent + (toDigits 10 d.digits).length > 400 := by omega
  have hc : ¬ (d.digits == 0 ||
      decide (d.exponent + (toDigits 10 d.digits).length < -400)) := by
    simp
    omega
  have hv : d.value = (d.digits * Nat.pow 10 d.exponent.toNat : ℕ) /
      (Nat.pow 10 (-d.exponent).toNat : ℕ) := by
    rw [Scaled.value, zpow_eq_toNat_div (by norm_num)]
    simp only [pow_eq]
    push_cast
    rw [mul_div_assoc]
  have hn : nearestBits (d.digits * Nat.pow 10 d.exponent.toNat)
      (Nat.pow 10 (-d.exponent).toNat) = (ofBits x.toBits).bits :=
    near.nearestBits_eq hst (Nat.mul_pos hd (Nat.pow_pos (by decide))) (Nat.pow_pos (by decide)) hv pos hf'
  unfold ofScaled
  dsimp only
  rw [if_neg hc, if_neg hb, hn, ofBits_signed]

end Appwright.Decimal
