import Appwright.Decimal.Binary
import Appwright.Text.Basic

/-!
# The text of a number

A float is written with the fewest decimal digits that read back as that float; of two decimals
with that many digits the nearer is taken, and of two equally near the even one. The digits are
found by exact integer arithmetic: for one digit, two digits and so on, the two neighbours of the
number on the decimal grid are tried.

The layout is positional while the leading digit stands for `10 ^ e` with `-4 ≤ e < 16`, and
otherwise scientific with a signed exponent of at least two digits. A whole number keeps one zero
after the point.
-/

namespace Appwright.Decimal

structure Scaled where
  digits : Nat
  exponent : Int
deriving Repr, DecidableEq

def compareScaled (a : Nat) (i : Int) (n : Nat) (j : Int) : Ordering :=
  compare (a * Nat.pow 10 i.toNat * Nat.pow 2 (-j).toNat) (n * Nat.pow 2 j.toNat * Nat.pow 10 (-i).toNat)

/-- Whether a decimal lies among the reals that round to this number: from halfway to the number
below up to halfway to the number above, ends included where the mantissa is even. -/
def Binary.readsBack (x : Binary) (d : Scaled) : Bool :=
  let low := if x.narrowBelow then 4 * x.mantissa - 1 else 4 * x.mantissa - 2
  let high := 4 * x.mantissa + 2
  let ends := x.mantissa % 2 == 0
  let atLow := compareScaled d.digits d.exponent low (x.exponent - 2)
  let atHigh := compareScaled d.digits d.exponent high (x.exponent - 2)
  (atLow == .gt || (ends && atLow == .eq)) && (atHigh == .lt || (ends && atHigh == .eq))

def Binary.ratio (x : Binary) : Nat × Nat :=
  (x.mantissa * Nat.pow 2 x.exponent.toNat, Nat.pow 2 (-x.exponent).toNat)

/-- The least `k` with `num / den < 10 ^ k`. -/
def leadingPower (num den : Nat) : Int :=
  if den ≤ num then (Nat.toDigits 10 (num / den)).length
  else
    match (List.range 400).find? fun j => decide (den ≤ num * Nat.pow 10 (j + 1)) with
    | some j => -(j : Int)
    | none => -400

/-- The neighbour below on the grid `10 ^ e`, and twice the remainder compared with the gap. -/
def gridFloor (num den : Nat) (e : Int) : Nat × Ordering :=
  let n := num * Nat.pow 10 (-e).toNat
  let d := den * Nat.pow 10 e.toNat
  (n / d, compare (2 * (n % d)) d)

def Binary.onGrid? (x : Binary) (e : Int) : Option Scaled :=
  let (num, den) := x.ratio
  let (below, half) := gridFloor num den e
  let lower : Scaled := ⟨below, e⟩
  let upper : Scaled := ⟨below + 1, e⟩
  match x.readsBack lower, x.readsBack upper with
  | true, true =>
    match half with
    | .lt => some lower
    | .gt => some upper
    | .eq => some (if below % 2 == 0 then lower else upper)
  | true, false => some lower
  | false, true => some upper
  | false, false => none

def Binary.exact (x : Binary) : Scaled :=
  ⟨x.mantissa * Nat.pow 2 x.exponent.toNat * Nat.pow 5 (-x.exponent).toNat,
    if x.exponent < 0 then x.exponent else 0⟩

/-- Trailing zeros of the digits move into the exponent, at most `fuel` of them. -/
def Scaled.strip : Nat → Scaled → Scaled
  | 0, d => d
  | fuel + 1, d =>
    if d.digits != 0 && d.digits % 10 == 0 then Scaled.strip fuel ⟨d.digits / 10, d.exponent + 1⟩
    else d

/-- The decimal with the fewest digits that reads back as a positive number. -/
def Binary.shortest (x : Binary) : Scaled :=
  let (num, den) := x.ratio
  let k := leadingPower num den
  let found := (List.range 17).findSome? fun (n : Nat) => x.onGrid? (k - (n + 1))
  Scaled.strip 400 (found.getD x.exact)

/-- The positional or scientific layout of a positive decimal. -/
def Scaled.layout (d : Scaled) : String :=
  let ds := Nat.toDigits 10 d.digits
  let lead : Int := d.exponent + (ds.length : Int) - 1
  if -4 ≤ lead ∧ lead < 16 then
    if 0 ≤ d.exponent then
      String.ofList (ds ++ List.replicate d.exponent.toNat '0') ++ ".0"
    else if 0 ≤ lead then
      let whole := (lead + 1).toNat
      String.ofList (ds.take whole) ++ "." ++ String.ofList (ds.drop whole)
    else
      "0." ++ String.ofList (List.replicate (-lead - 1).toNat '0' ++ ds)
  else
    let fraction := ds.drop 1
    String.ofList (ds.take 1) ++
      (if fraction.isEmpty then "" else "." ++ String.ofList fraction) ++
      (if lead < 0 then "e-" else "e+") ++ Text.padded 2 lead.natAbs

def finiteText (x : Float) : String :=
  let b := Binary.ofBits x.toBits
  let body := if b.mantissa == 0 then "0.0" else b.shortest.layout
  if signBit x then "-" ++ body else body

def text (x : Float) : String :=
  if x.isNaN then "nan"
  else if isFinite x then finiteText x
  else if signBit x then "-inf" else "inf"

/-! ## Fifteen digits

A half goes up, and zeros at the end are left out. The layout is positional while `-4 ≤ e ≤ 14`.
-/

def significantDigits : Nat := 15

def Binary.significant (x : Binary) : Scaled :=
  let (num, den) := x.ratio
  let e := leadingPower num den - significantDigits
  let (below, half) := gridFloor num den e
  Scaled.strip 400 ⟨if half == .lt then below else below + 1, e⟩

def Scaled.pointed (d : Scaled) : String :=
  let ds := Nat.toDigits 10 d.digits
  let lead : Int := d.exponent + (ds.length : Int) - 1
  let orZero (fraction : List Char) : String :=
    if fraction.isEmpty then "0" else String.ofList fraction
  if -4 ≤ lead ∧ lead ≤ 14 then
    if 0 ≤ lead then
      let whole := (lead + 1).toNat
      let padded := ds ++ List.replicate (whole - ds.length) '0'
      String.ofList (padded.take whole) ++ "." ++ orZero (ds.drop whole)
    else "0." ++ String.ofList (List.replicate (-lead - 1).toNat '0' ++ ds)
  else
    String.ofList (ds.take 1) ++ "." ++ orZero (ds.drop 1) ++
      (if lead < 0 then "e-" else "e+") ++ Text.padded 2 lead.natAbs

def significantText (x : Float) : String :=
  if !isFinite x then (if signBit x then "-Inf" else "Inf")
  else
    let b := Binary.ofBits x.toBits
    if b.mantissa == 0 then "0.0"
    else (if signBit x then "-" else "") ++ b.significant.pointed

end Appwright.Decimal
