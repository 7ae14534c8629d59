import Appwright.Decimal.Binary
import Mathlib

/-!
# The bits of floats

A finite float is its mantissa times a power of two, and its bits without the sign are one number:
the exponent above the mantissa. Rounding to the nearest float, which goes by numbers of this kind,
gives a float with the value that was rounded to.
-/

namespace Appwright.Decimal

open Binary Nat

/-! ## The nearest float of a fraction

The exponent is determined by the range of the scaled fraction (`binaryExponent_eq`), the mantissa by
being nearest (`Rounds`), and both determine the bits (`nearestBits_eq`).
-/

/-! ## Rounding -/

/-- A whole number that is nearest to a rational one, and is even if another is as near. -/
structure Rounds (w : ℚ) (m : ℕ) : Prop where
  low : (m : ℚ) - 1 / 2 ≤ w
  high : w ≤ m + 1 / 2
  even : w = m - 1 / 2 ∨ w = m + 1 / 2 → m % 2 = 0

variable {w v : ℚ} {m n : ℕ}

theorem Rounds.unique (hm : Rounds w m) (hn : Rounds w n) : m = n := by
  wlog lt : m < n generalizing m n
  · rcases lt_trichotomy m n with hl | hs | hmo
    · exact this hm hn hl
    · exact hs
    · exact (this hn hm hmo).symm
  have next : (m : ℚ) + 1 ≤ n := by exact_mod_cast lt
  have tie : w = m + 1 / 2 := le_antisymm hm.high (by linarith [hn.low])
  have tie' : w = n - 1 / 2 := le_antisymm (by linarith [hm.high]) hn.low
  have hs : (m : ℚ) + 1 = n := by linarith
  have succ : m + 1 = n := by exact_mod_cast hs
  have := hm.even (.inr tie)
  have := hn.even (.inl tie')
  omega

theorem Rounds.le_of_lt (hn : Rounds w m) (hl : w < n) : m ≤ n := by
  by_contra! hm
  have : (n : ℚ) + 1 ≤ m := by exact_mod_cast hm
  linarith [hn.low]

theorem Rounds.le_of_le (hn : Rounds w m) (le : n ≤ w) : n ≤ m := by
  by_contra! hl
  have : (m : ℚ) + 1 ≤ n := by exact_mod_cast hl
  linarith [hn.high]

theorem rounds_natCast (m : ℕ) : Rounds (m : ℚ) m where
  low := by linarith
  high := by linarith
  even := by
    rintro (hb | ha)
    · linarith
    · linarith

theorem rounds_roundDiv (num : ℕ) {den : ℕ} (pos : 0 < den) :
    Rounds ((num : ℚ) / den) (roundDiv num den) := by
  have hpo : (0 : ℚ) < den := by exact_mod_cast pos
  have hp : (num : ℚ) / den = (num / den : ℕ) + ((num % den : ℕ) : ℚ) / den := by
    have := div_add_mod num den
    field_simp
    exact_mod_cast this.symm
  -- Twice the remainder against the denominator is the remaining part against a half.
  have hb : 2 * (num % den) < den ↔ ((num % den : ℕ) : ℚ) / den < 1 / 2 := by
    rw [div_lt_div_iff₀ hpo two_pos, one_mul, mul_comm]
    exact_mod_cast Iff.rfl
  have ha : den < 2 * (num % den) ↔ 1 / 2 < ((num % den : ℕ) : ℚ) / den := by
    rw [div_lt_div_iff₀ two_pos hpo, one_mul, mul_comm _ (2 : ℚ)]
    exact_mod_cast Iff.rfl
  have hl : (0 : ℚ) ≤ ((num % den : ℕ) : ℚ) / den := by positivity
  have hle : ((num % den : ℕ) : ℚ) / den < 1 := by
    rw [div_lt_one hpo]
    exact_mod_cast mod_lt num pos
  rw [hp]
  unfold roundDiv
  generalize ((num % den : ℕ) : ℚ) / den = part at hb ha hl hle
  have up : ((num / den + 1 : ℕ) : ℚ) = (num / den : ℕ) + 1 := cast_succ _
  dsimp only
  split
  next hlo =>
    have := hb.1 hlo
    exact ⟨by linarith, by linarith, by rintro (h | h) <;> linarith⟩
  next hno =>
    have := hb.not.1 hno
    split
    next higher =>
      have := ha.1 higher
      exact ⟨by linarith, by linarith, by rintro (h | h) <;> linarith⟩
    next hn =>
      have := ha.not.1 hn
      split
      next he => exact ⟨by linarith, by linarith, fun _ => by simpa using he⟩
      next odd =>
        refine ⟨by linarith, by linarith, fun _ => ?_⟩
        have : num / den % 2 ≠ 0 := by simpa using odd
        omega

/-! ## Scaling -/

theorem zpow_eq_toNat_div {b : ℚ} (hn : b ≠ 0) (e : ℤ) : b ^ e = b ^ e.toNat / b ^ (-e).toNat := by
  rw [eq_div_iff (pow_ne_zero _ hn), ← zpow_natCast, ← zpow_natCast, ← zpow_add₀ hn]
  congr 1
  omega

theorem ratio_div_zpow (num den : ℕ) (e : ℤ) :
    ((num * Nat.pow 2 (-e).toNat : ℕ) : ℚ) / (den * Nat.pow 2 e.toNat : ℕ) = (num : ℚ) / den / 2 ^ e := by
  rw [zpow_eq_toNat_div two_ne_zero e]
  simp only [pow_eq]
  push_cast
  rw [div_div_eq_mul_div, div_mul_eq_mul_div, div_div]

theorem two_zpow_pos (e : ℤ) : (0 : ℚ) < 2 ^ e := zpow_pos two_pos e

/-- The exponent of the floats next to a rational number: their distance is a power of two, such that
the number is at least `2 ^ 52` of it, but not less than the least float. -/
def gridExponent (v : ℚ) : ℤ :=
  max (Int.log 2 v - 52) (-1074)

section Exponent

variable {num den : ℕ} (hnum : 0 < num) (hden : 0 < den)

include hnum hden

theorem log_bounds : (num.log2 : ℤ) - den.log2 - 1 ≤ Int.log 2 ((num : ℚ) / den) ∧
    Int.log 2 ((num : ℚ) / den) < num.log2 - den.log2 + 1 := by
  have numQ : (0 : ℚ) < num := by exact_mod_cast hnum
  have denQ : (0 : ℚ) < den := by exact_mod_cast hden
  have pos : (0 : ℚ) < num / den := div_pos numQ denQ
  have hb {n : ℕ} (hn : 0 < n) : (2 : ℚ) ^ (n.log2 : ℤ) ≤ n ∧ (n : ℚ) < 2 ^ (n.log2 + 1 : ℤ) := by
    constructor
    · rw [zpow_natCast]
      exact_mod_cast log2_self_le hn.ne'
    · exact_mod_cast lt_log2_self (n := n)
  obtain ⟨numLow, hnu⟩ := hb hnum
  obtain ⟨hde, hd⟩ := hb hden
  constructor
  · rw [← Int.zpow_le_iff_le_log one_lt_two pos, cast_ofNat, le_div_iff₀ denQ]
    calc (2 : ℚ) ^ ((num.log2 : ℤ) - den.log2 - 1) * den
        ≤ 2 ^ ((num.log2 : ℤ) - den.log2 - 1) * 2 ^ (den.log2 + 1 : ℤ) :=
          mul_le_mul_of_nonneg_left hd.le (two_zpow_pos _).le
      _ = 2 ^ (num.log2 : ℤ) := by
          rw [← zpow_add₀ two_ne_zero]
          congr 1
          omega
      _ ≤ num := numLow
  · rw [← Int.lt_zpow_iff_log_lt one_lt_two pos, cast_ofNat, div_lt_iff₀ denQ]
    calc (num : ℚ) < 2 ^ (num.log2 + 1 : ℤ) := hnu
      _ = 2 ^ ((num.log2 : ℤ) - den.log2 + 1) * 2 ^ (den.log2 : ℤ) := by
          rw [← zpow_add₀ two_ne_zero]
          congr 1
          omega
      _ ≤ 2 ^ ((num.log2 : ℤ) - den.log2 + 1) * den :=
          mul_le_mul_of_nonneg_left hde (two_zpow_pos _).le

theorem binaryExponent_eq : binaryExponent num den = gridExponent ((num : ℚ) / den) := by
  obtain ⟨low, high⟩ := log_bounds hnum hden
  have pos : (0 : ℚ) < num / den := div_pos (by exact_mod_cast hnum) (by exact_mod_cast hden)
  unfold binaryExponent gridExponent
  dsimp only
  set guess : ℤ := num.log2 - den.log2 - 53 with hguess
  have hl : Nat.pow 2 53 ≤ num * Nat.pow 2 (-guess).toNat / (den * Nat.pow 2 guess.toNat) ↔
      guess + 53 ≤ Int.log 2 ((num : ℚ) / den) := by
    have gap : 0 < den * Nat.pow 2 guess.toNat := Nat.mul_pos hden (Nat.pow_pos two_pos)
    rw [le_div_iff_mul_le gap, ← Int.zpow_le_iff_le_log one_lt_two pos, cast_ofNat,
      add_comm guess, zpow_add₀ two_ne_zero, ← le_div_iff₀ (two_zpow_pos _), ← ratio_div_zpow,
      le_div_iff₀ (by exact_mod_cast gap)]
    norm_cast
  congr 1
  split
  next h =>
    have := hl.1 h
    omega
  next h =>
    have := hl.not.1 h
    omega

end Exponent

/-! ## The bits of the nearest float -/

theorem nearestBits_eq {num den : ℕ} (hnum : 0 < num) (hden : 0 < den)
    (hn : Rounds ((num : ℚ) / den / 2 ^ gridExponent ((num : ℚ) / den)) m) : nearestBits num den =
      min ((gridExponent ((num : ℚ) / den) + 1074).toNat * 2 ^ 52 + m) infinityBits := by
  unfold nearestBits
  rw [if_neg (by simpa using hnum.ne')]
  dsimp only
  rw [binaryExponent_eq hnum hden]
  set e := gridExponent ((num : ℚ) / den)
  have gap : 0 < den * Nat.pow 2 e.toNat := Nat.mul_pos hden (Nat.pow_pos two_pos)
  rw [← ratio_div_zpow] at hn
  rw [(rounds_roundDiv _ gap).unique hn]
  rfl

theorem gridExponent_eq (pos : 0 < v) {e : ℤ} (hl : -1074 ≤ e) (high : v < 2 ^ (e + 53))
    (low : e = -1074 ∨ 2 ^ (e + 52) ≤ v) : gridExponent v = e := by
  have hb : Int.log 2 v < e + 53 := (Int.lt_zpow_iff_log_lt one_lt_two pos).1 (by exact_mod_cast high)
  unfold gridExponent
  rcases low with rfl | low
  · omega
  · have ha : e + 52 ≤ Int.log 2 v := (Int.zpow_le_iff_le_log one_lt_two pos).1 (by exact_mod_cast low)
    omega

theorem gridExponent_bounds (pos : 0 < v) : -1074 ≤ gridExponent v ∧
    v < 2 ^ (gridExponent v + 53) ∧ (gridExponent v = -1074 ∨ 2 ^ (gridExponent v + 52) ≤ v) := by
  refine ⟨le_max_right _ _, ?_, ?_⟩
  · have : Int.log 2 v < gridExponent v + 53 := by
      unfold gridExponent
      omega
    exact_mod_cast (Int.lt_zpow_iff_log_lt one_lt_two pos).2 this
  · by_cases hs : gridExponent v = -1074
    · exact .inl hs
    · have : gridExponent v + 52 ≤ Int.log 2 v := by
        unfold gridExponent at hs ⊢
        omega
      exact .inr (by exact_mod_cast (Int.zpow_le_iff_le_log one_lt_two pos).2 this)

theorem gridExponent_nonpos (pos : 0 < v) (hl : v < 2 ^ 53) : gridExponent v ≤ 0 := by
  have : Int.log 2 v < 53 := (Int.lt_zpow_iff_log_lt one_lt_two pos).1 (by exact_mod_cast hl)
  unfold gridExponent
  omega

theorem Rounds.digits (pos : 0 < v) (hn : Rounds (v / 2 ^ gridExponent v) m) :
    m ≤ 2 ^ 53 ∧ (gridExponent v = -1074 ∨ 2 ^ 52 ≤ m) := by
  obtain ⟨-, high, low⟩ := gridExponent_bounds pos
  have gap := two_zpow_pos (gridExponent v)
  constructor
  · refine hn.le_of_lt ?_
    rw [div_lt_iff₀ gap]
    rw [add_comm, zpow_add₀ two_ne_zero] at high
    exact_mod_cast high
  · refine low.imp_right fun low => hn.le_of_le ?_
    rw [le_div_iff₀ gap]
    rw [add_comm, zpow_add₀ two_ne_zero] at low
    exact_mod_cast low

end Appwright.Decimal

namespace Appwright.Decimal

/-! ## Bits -/

variable {num den : ℕ} (b : UInt64)

theorem toNat_exponentBits : ((b >>> 52) &&& 0x7FF).toNat = b.toNat / 2 ^ 52 % 2 ^ 11 := by
  rw [UInt64.toNat_and, UInt64.toNat_shiftRight]
  change (b.toNat >>> 52) &&& (2 ^ 11 - 1) = _
  rw [Nat.and_two_pow_sub_one_eq_mod, Nat.shiftRight_eq_div_pow]

theorem toNat_mantissaBits : (b &&& 0xFFFFFFFFFFFFF).toNat = b.toNat % 2 ^ 52 := by
  rw [UInt64.toNat_and]
  exact Nat.and_two_pow_sub_one_eq_mod b.toNat 52

structure Binary.Standard (x : Binary) : Prop where
  least : -1074 ≤ x.exponent
  digits : x.mantissa < 2 ^ 53
  leading : x.exponent = -1074 ∨ 2 ^ 52 ≤ x.mantissa
  narrow : x.narrowBelow = true ↔ x.mantissa = 2 ^ 52 ∧ -1074 < x.exponent

def Binary.bits (x : Binary) : ℕ :=
  (x.exponent + 1074).toNat * 2 ^ 52 + x.mantissa

theorem Binary.standard_ofBits : (ofBits b).Standard ∧ (ofBits b).bits = b.toNat % 2 ^ 63 := by
  unfold ofBits
  dsimp only
  rw [toNat_exponentBits, toNat_mantissaBits]
  split
  next zero =>
    have zero : b.toNat / 2 ^ 52 % 2 ^ 11 = 0 := by simpa using zero
    refine ⟨⟨le_rfl, ?_, .inl rfl, ?_⟩, ?_⟩
    · dsimp only
      omega
    · simp
    · unfold bits
      dsimp only
      omega
  next hn =>
    have hn : b.toNat / 2 ^ 52 % 2 ^ 11 ≠ 0 := by simpa using hn
    refine ⟨⟨?_, ?_, .inr ?_, ?_⟩, ?_⟩
    · dsimp only
      omega
    · dsimp only
      omega
    · dsimp only
      omega
    · simp only [Bool.and_eq_true, beq_iff_eq, decide_eq_true_eq]
      omega
    · unfold bits
      dsimp only
      omega

theorem isFinite_iff (x : Float) : isFinite x ↔ x.toBits.toNat % 2 ^ 63 < infinityBits := by
  unfold isFinite infinityBits
  rw [bne_iff_ne, ne_eq, ← UInt64.toNat_inj, toNat_exponentBits]
  have := x.toBits.toNat_lt
  change ¬ _ = 0x7FF ↔ _
  omega

open Float.Model.UnpackedFloat in
theorem isNaNBits_iff : @isNaNBits .binary64 b.toBitVec ↔ infinityBits < b.toNat % 2 ^ 63 := by
  have he : (@unpackExponent .binary64 b.toBitVec).toNat = b.toNat / 2 ^ 52 % 2 ^ 11 := by
    rw [unpackExponent_def]
    exact (BitVec.extractLsb'_toNat 52 11 b.toBitVec).trans (by rw [Nat.shiftRight_eq_div_pow]; rfl)
  have hm : (@unpackMantissa .binary64 b.toBitVec).toNat = b.toNat % 2 ^ 52 := by
    rw [unpackMantissa_def]
    exact BitVec.extractLsb'_toNat 0 52 b.toBitVec
  have ho : @unpackExponent .binary64 b.toBitVec = -1 ↔ b.toNat / 2 ^ 52 % 2 ^ 11 = 2 ^ 11 - 1 := by
    rw [← he]
    exact BitVec.toNat_inj.symm
  have zero : @unpackMantissa .binary64 b.toBitVec = 0 ↔ b.toNat % 2 ^ 52 = 0 := by
    rw [← hm]
    exact BitVec.toNat_inj.symm
  have hr := b.toNat_lt
  unfold infinityBits
  refine decide_eq_true_iff.trans ((and_congr ho (not_congr zero)).trans ?_)
  omega

theorem toBits_ofBits {b : UInt64} (hfi : b.toNat % 2 ^ 63 < infinityBits) :
    (Float.ofBits b).toBits = b := by
  rw [← UInt64.toBitVec_inj]
  refine (@Float.Model.UnpackedFloat.pack_unpack .binary64 b.toBitVec (by decide)).trans (if_neg ?_)
  rw [isNaNBits_iff]
  exact not_lt.2 hfi.le

theorem eq_nan_of_lt {x : Float} (ha : infinityBits < x.toBits.toNat % 2 ^ 63) : x = Float.nan := by
  have hp := @Float.Model.UnpackedFloat.pack_unpack .binary64 x.toBits.toBitVec (by decide)
  rw [if_pos ((isNaNBits_iff _).2 ha)] at hp
  have hb : (Float.ofBits x.toBits).toBits = Float.nan.toBits :=
    UInt64.toBitVec_inj.1 (hp.trans (by decide))
  rw [Float.ofBits_toBits] at hb
  rw [← Float.ofBits_toBits (f := x), hb, Float.ofBits_toBits]

theorem isNaN_eq_false {x : Float} (hfi : isFinite x) : x.isNaN = false := by
  rw [Float.isNaN_eq_decide_eq_nan, decide_eq_false_iff_not]
  rintro rfl
  revert hfi
  decide +kernel

/-! ## Values -/

def Binary.value (x : Binary) : ℚ :=
  x.mantissa * 2 ^ x.exponent

theorem Binary.Standard.value_eq {x : Binary} (hs : x.Standard) {e : ℤ} {m : ℕ}
    (hle : -1074 ≤ e) (hd : m ≤ 2 ^ 53) (hl : e = -1074 ∨ 2 ^ 52 ≤ m)
    (hsa : x.bits = (e + 1074).toNat * 2 ^ 52 + m) : x.value = m * 2 ^ e := by
  obtain ⟨hle', hd', hl', -⟩ := hs
  unfold bits at hsa
  unfold value
  by_cases hc : m = 2 ^ 53
  · have he : x.exponent = e + 1 := by omega
    have hm : x.mantissa = 2 ^ 52 := by omega
    rw [he, hm, hc, zpow_add₀ two_ne_zero]
    push_cast
    ring
  · have he : x.exponent = e := by omega
    have hm : x.mantissa = m := by omega
    rw [he, hm]

theorem ratio_lt (hden : 0 < den) (hs : num < 2 ^ 53) : (num : ℚ) / den < 2 ^ 53 :=
  (div_le_self num.cast_nonneg (by exact_mod_cast hden)).trans_lt (by exact_mod_cast hs)

theorem value_ofNatRatio (hnum : 0 < num) (hden : 0 < den) (hsm : num < 2 ^ 53) :
    ∃ m, Rounds ((num : ℚ) / den / 2 ^ gridExponent ((num : ℚ) / den)) m ∧
      (ofNatRatio num den).toBits.toNat < infinityBits ∧
      (Binary.ofBits (ofNatRatio num den).toBits).value = m * 2 ^ gridExponent ((num : ℚ) / den) := by
  have pos : (0 : ℚ) < num / den := div_pos (by exact_mod_cast hnum) (by exact_mod_cast hden)
  obtain ⟨hle, -, -⟩ := gridExponent_bounds pos
  have hb := gridExponent_nonpos pos (ratio_lt hden hsm)
  set v : ℚ := num / den
  set e := gridExponent v
  have gap : 0 < den * Nat.pow 2 e.toNat := Nat.mul_pos hden (Nat.pow_pos two_pos)
  obtain ⟨m, hn⟩ : ∃ m, Rounds (v / 2 ^ e) m := ⟨_, ratio_div_zpow num den e ▸ rounds_roundDiv _ gap⟩
  obtain ⟨hd, hl⟩ := hn.digits pos
  have hf : (e + 1074).toNat * 2 ^ 52 + m < infinityBits := by
    unfold infinityBits
    omega
  have hbi : nearestBits num den = (e + 1074).toNat * 2 ^ 52 + m :=
    (nearestBits_eq hnum hden hn).trans (min_eq_left hf.le)
  have hfi : nearestBits num den < infinityBits := hbi ▸ hf
  have hw : (UInt64.ofNat (nearestBits num den)).toNat = nearestBits num den := by
    refine UInt64.toNat_ofNat_of_lt' (hfi.trans ?_)
    decide
  have hk : (ofNatRatio num den).toBits = UInt64.ofNat (nearestBits num den) := by
    refine toBits_ofBits ?_
    rw [hw]
    exact (Nat.mod_le _ _).trans_lt hfi
  refine ⟨m, hn, by rwa [hk, hw], ?_⟩
  obtain ⟨hs, hsa⟩ := Binary.standard_ofBits (ofNatRatio num den).toBits
  refine hs.value_eq hle hd hl (hsa.trans ?_)
  rw [hk, hw, hbi]
  omega

/-! ## Whole numbers next to a float -/

section Whole

variable {x : Float} (hfi : x.toBits.toNat < infinityBits)

include hfi

theorem signBit_eq_false : signBit x = false := by
  unfold signBit
  rw [beq_eq_false_iff_ne, ne_eq, ← UInt64.toNat_inj, UInt64.toNat_shiftRight]
  change ¬ x.toBits.toNat >>> 63 = 1
  unfold infinityBits at hfi
  omega

theorem fraction_eq : ((fraction x).1 : ℚ) / (fraction x).2 = (Binary.ofBits x.toBits).value ∧
    0 < (fraction x).2 := by
  unfold fraction
  dsimp only
  rw [signBit_eq_false hfi, if_neg Bool.false_ne_true]
  refine ⟨?_, Nat.pow_pos two_pos⟩
  rw [Binary.value, zpow_eq_toNat_div two_ne_zero]
  simp only [Nat.pow_eq]
  push_cast
  rw [mul_div_assoc]

theorem floor_eq : floor x = ⌊(Binary.ofBits x.toBits).value⌋ := by
  obtain ⟨hs, pos⟩ := fraction_eq hfi
  rw [← hs, Rat.floor_intCast_div_natCast]
  exact Int.fdiv_eq_ediv_of_nonneg _ (Int.natCast_nonneg _)

theorem equalsInt_iff (i : ℤ) : equalsInt i x ↔ (i : ℚ) = (Binary.ofBits x.toBits).value := by
  obtain ⟨hs, pos⟩ := fraction_eq hfi
  have hn : isFinite x := (isFinite_iff x).2 ((Nat.mod_le _ _).trans_lt hfi)
  rw [← hs, eq_div_iff (by exact_mod_cast pos.ne')]
  unfold equalsInt compareInt?
  rw [isNaN_eq_false hn, if_neg Bool.false_ne_true, if_pos hn, beq_iff_eq,
    Option.some.injEq, compare_eq_iff_eq]
  exact_mod_cast Iff.rfl

theorem ceil_value : (if equalsInt (floor x) x then floor x else floor x + 1) =
    ⌈(Binary.ofBits x.toBits).value⌉ := by
  have hb := Int.floor_le (Binary.ofBits x.toBits).value
  have ha := Int.lt_floor_add_one (Binary.ofBits x.toBits).value
  have hw := equalsInt_iff hfi (floor x)
  rw [floor_eq hfi] at hw ⊢
  rw [eq_comm, Int.ceil_eq_iff]
  split
  next hsa => exact ⟨by linarith, (hw.1 hsa).ge⟩
  next hp =>
    have hs := lt_of_le_of_ne hb (hw.not.1 hp)
    push_cast
    exact ⟨by linarith, ha.le⟩

end Whole

theorem floor_add_le (hden : 0 < den) (hp : ¬ den ∣ num) : (⌊(num : ℚ) / den⌋ : ℚ) + 1 / den ≤ num / den ∧
      (num : ℚ) / den + 1 / den ≤ ⌊(num : ℚ) / den⌋ + 1 := by
  have hd : (0 : ℚ) < den := by exact_mod_cast hden
  have hdo : ⌊(num : ℚ) / den⌋ = ((num / den : ℕ) : ℤ) := Rat.floor_natCast_div_natCast num den
  have hw := Nat.div_add_mod num den
  have some : num % den ≠ 0 := fun none => hp (Nat.dvd_of_mod_eq_zero none)
  have hl := Nat.mod_lt num hden
  rw [hdo, Int.cast_natCast]
  constructor
  · have : den * (num / den) + 1 ≤ num := by omega
    have : ((den * (num / den) + 1 : ℕ) : ℚ) ≤ num := by exact_mod_cast this
    rw [le_div_iff₀ hd, add_mul, one_div_mul_cancel hd.ne', mul_comm]
    exact_mod_cast this
  · have : num + 1 ≤ den * (num / den) + den := by omega
    rw [← add_div, div_le_iff₀ hd, add_mul, one_mul, mul_comm]
    exact_mod_cast this

/-- Fewer than `2 ^ 53` things are cut into parts: rounding the quotient does not change the number of
parts, one part at least. -/
theorem ceil_ofNatRatio (hnum : 0 < num) (hden : 0 < den) (hsm : num < 2 ^ 53) :
    max 1 ⌈(Binary.ofBits (ofNatRatio num den).toBits).value⌉ = ⌈(num : ℚ) / den⌉ := by
  obtain ⟨m, hne, -, hva⟩ := value_ofNatRatio hnum hden hsm
  have hd : (0 : ℚ) < den := by exact_mod_cast hden
  have pos : (0 : ℚ) < num / den := div_pos (by exact_mod_cast hnum) hd
  have hb := gridExponent_nonpos pos (ratio_lt hden hsm)
  obtain ⟨-, high, low⟩ := gridExponent_bounds pos
  rw [hva]
  set v : ℚ := num / den with hv
  set e := gridExponent v
  have gap := two_zpow_pos e
  have hl : 1 ≤ ⌈v⌉ := Int.one_le_ceil_iff.2 pos
  -- The float is at most half a step away.
  have hdo : v ≤ m * 2 ^ e + 2 ^ e / 2 := by
    have := (div_le_iff₀ gap).1 hne.high
    linarith
  have up : m * 2 ^ e ≤ v + 2 ^ e / 2 := by
    have := (le_div_iff₀ gap).1 hne.low
    linarith
  by_cases hw : den ∣ num
  · obtain ⟨q, rfl⟩ := hw
    have exact : v = q := by
      rw [hv]
      push_cast
      rw [mul_div_cancel_left₀ _ hd.ne']
    have hs : v / 2 ^ e = (q * 2 ^ (-e).toNat : ℕ) := by
      rw [exact, div_eq_mul_inv, ← zpow_neg]
      push_cast
      rw [← zpow_natCast, Int.toNat_of_nonneg (by omega)]
    rw [hs] at hne
    have hm := hne.unique (rounds_natCast _)
    rw [hm, ← hs, div_mul_cancel₀ _ gap.ne', max_eq_right hl]
  · obtain ⟨hfl, hf⟩ := floor_add_le hden hw
    have hp : (0 : ℚ) < 1 / den := by positivity
    have hc : ⌈v⌉ = ⌊v⌋ + 1 := by
      rw [Int.ceil_eq_iff]
      push_cast
      exact ⟨by linarith, by linarith⟩
    rcases low with ht | low
    · -- A quotient below the normal floats is in the first part, and stays there.
      have half {k : ℤ} (neg : k ≤ -1) : (2 : ℚ) ^ k ≤ 1 / 2 :=
        (zpow_le_zpow_right₀ one_le_two neg).trans (by norm_num)
      have hst := half (k := e) (by omega)
      have hsm := half (k := e + 53) (by omega)
      have first : ⌈v⌉ ≤ 1 := Int.ceil_le.2 (by push_cast; linarith)
      have hne : ⌈(m : ℚ) * 2 ^ e⌉ ≤ 1 := Int.ceil_le.2 (by push_cast; linarith)
      rw [max_eq_left hne]
      exact le_antisymm hl first
    · -- Half a step is less than a part.
      have hn : (2 : ℚ) ^ e / 2 < 1 / den := by
        rw [zpow_add₀ two_ne_zero] at low
        have few : v * den < 2 ^ 53 := by
          rw [hv, div_mul_cancel₀ _ hd.ne']
          exact_mod_cast hsm
        rw [div_lt_div_iff₀ two_pos hd, one_mul]
        have hs := mul_le_mul_of_nonneg_right low hd.le
        norm_num at hs few ⊢
        linarith
      have hsa : ⌈(m : ℚ) * 2 ^ e⌉ = ⌊v⌋ + 1 := by
        rw [Int.ceil_eq_iff]
        push_cast
        exact ⟨by linarith, by linarith⟩
      rw [hsa, ← hc, max_eq_right hl]

end Appwright.Decimal
