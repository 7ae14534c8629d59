/-!
# Binary numbers and their exact values

A finite binary floating-point number is a natural number times a power of two. This module takes a
number apart into these two, and compares and truncates numbers by exact integer arithmetic.
-/

namespace Appwright.Decimal

/-- A finite number without its sign: `mantissa · 2 ^ exponent`. -/
structure Binary where
  mantissa : Nat
  exponent : Int
  /-- The gap to the number below is half the gap to the number above. -/
  narrowBelow : Bool
deriving Repr, DecidableEq

/-- The parts of a number given by its 64 bits, which must not stand for an infinity or for no
number at all. -/
def Binary.ofBits (b : UInt64) : Binary :=
  let e := ((b >>> 52) &&& 0x7FF).toNat
  let f := (b &&& 0xFFFFFFFFFFFFF).toNat
  if e == 0 then ⟨f, -1074, false⟩ else ⟨0x10000000000000 + f, (e : Int) - 1075, f == 0 && e > 1⟩

def signBit (x : Float) : Bool :=
  (x.toBits >>> 63) == 1

def isFinite (x : Float) : Bool :=
  ((x.toBits >>> 52) &&& 0x7FF) != 0x7FF

/-- The exact value of a finite float as a fraction with a positive denominator. -/
def fraction (x : Float) : Int × Nat :=
  let b := Binary.ofBits x.toBits
  let n : Nat := b.mantissa * Nat.pow 2 b.exponent.toNat
  let d : Nat := Nat.pow 2 (-b.exponent).toNat
  (if signBit x then -(n : Int) else (n : Int), d)

def truncate (x : Float) : Int :=
  let (n, d) := fraction x
  n.tdiv d

def floor (x : Float) : Int :=
  let (n, d) := fraction x
  n.fdiv d

/-- The order of a whole number and a float, by their exact values. No number at all compares with
nothing. -/
def compareInt? (i : Int) (x : Float) : Option Ordering :=
  if x.isNaN then none
  else if isFinite x then
    let (n, d) := fraction x
    some (compare (i * d) n)
  else some (if signBit x then .gt else .lt)

def equalsInt (i : Int) (x : Float) : Bool :=
  compareInt? i x == some .eq

/-- The float nearest to a whole number, or nothing where that would be infinite. -/
def ofInt? (i : Int) : Option Float :=
  let x := Float.ofInt i
  if isFinite x then some x else none

/-! ## Floats nearest to fractions -/

/-- The whole number nearest to a fraction; a half goes to the even neighbour. -/
def roundDiv (num den : Nat) : Nat :=
  let q := num / den
  let twice := 2 * (num % den)
  if twice < den then q
  else if den < twice then q + 1
  else if q % 2 == 0 then q
  else q + 1

/-- The exponent at which a positive fraction has 53 binary digits in front of the point, or that of
the least float if this is greater. -/
def binaryExponent (num den : Nat) : Int :=
  let guess : Int := (num.log2 : Int) - den.log2 - 53
  let quotient : Nat := num * Nat.pow 2 (-guess).toNat / (den * Nat.pow 2 guess.toNat)
  max (if Nat.pow 2 53 ≤ quotient then guess + 1 else guess) (-1074)

def infinityBits : Nat := 0x7FF0000000000000

/-- The bits of the float nearest to a fraction without a sign. Each step of the exponent is worth
`2 ^ 52` of them, and so is the leading digit of the mantissa: a mantissa that is rounded up to one
digit more becomes the next exponent. -/
def nearestBits (num den : Nat) : Nat :=
  if num == 0 then 0
  else
    let e := binaryExponent num den
    let mantissa := roundDiv (num * Nat.pow 2 (-e).toNat) (den * Nat.pow 2 e.toNat)
    min ((e + 1074).toNat * 0x10000000000000 + mantissa) infinityBits

def ofNatRatio (num den : Nat) : Float :=
  Float.ofBits (UInt64.ofNat (nearestBits num den))

/-- The remainder of two floats, with the sign of the first. The second is not zero. -/
def remainder (x y : Float) : Float :=
  if x.isNaN || y.isNaN || x.isInf then 0.0 / 0.0
  else if y.isInf then x
  else
    let (a, c) := fraction x
    let (b, d) := fraction y
    let r := ofNatRatio ((a.natAbs * d) % (b.natAbs * c)) (c * d)
    if signBit x then -r else r

end Appwright.Decimal
