import Appwright.Target.Fault

/-!
# Arithmetic

Whole numbers of any size and floats. Between the two kinds arithmetic is done with floats.
-/

namespace Appwright.Target

open Decimal

inductive Number where
  | int (n : Int)
  | float (x : Float)
deriving Repr, Inhabited

namespace Number

def zeroDivision (message : String) : Fault :=
  ⟨.zeroDivision, message⟩

def toFloat : Number → Except Fault Float
  | float x => .ok x
  | int n =>
    match ofInt? n with
    | some x => .ok x
    | none => .error ⟨.overflow, "int too large to convert to float"⟩

def lift (onInts : Int → Int → Int) (onFloats : Float → Float → Float) :
    Number → Number → Except Fault Number
  | int a, int b => .ok (int (onInts a b))
  | x, y => return float (onFloats (← x.toFloat) (← y.toFloat))

def add : Number → Number → Except Fault Number :=
  lift (· + ·) (· + ·)

def sub : Number → Number → Except Fault Number :=
  lift (· - ·) (· - ·)

def mul : Number → Number → Except Fault Number :=
  lift (· * ·) (· * ·)

/-- Division of a kind, with what is said of a divisor that is zero. -/
def divide (whole fractional : String) (onInts : Int → Int → Except Fault Number)
    (onFloats : Float → Float → Float) : Number → Number → Except Fault Number
  | int a, int b => if b == 0 then .error (zeroDivision whole) else onInts a b
  | x, y => do
    let a ← x.toFloat
    let b ← y.toFloat
    if b == 0.0 then throw (zeroDivision fractional)
    return float (onFloats a b)

def div : Number → Number → Except Fault Number :=
  let quotient (a b : Int) : Except Fault Number :=
    let x := ofNatRatio a.natAbs b.natAbs
    if isFinite x then .ok (float (if (a < 0) != (b < 0) then -x else x))
    else .error ⟨.overflow, "integer division result too large for a float"⟩
  divide "division by zero" "float division by zero" quotient (· / ·)

def signedZero (x : Float) : Float :=
  if signBit x then -0.0 else 0.0

/-- The quotient of floats down to a whole one, and a remainder with the divisor's sign. -/
def divMod (a b : Float) : Float × Float :=
  let r := remainder a b
  let q := (a - r) / b
  let (q, r) :=
    if r != 0.0 then
      if (b < 0.0) != (r < 0.0) then (q - 1.0, r + b) else (q, r)
    else (q, signedZero b)
  if q != 0.0 then
    let down := q.floor
    (if q - down > 0.5 then down + 1.0 else down, r)
  else (signedZero (a / b), r)

def floorDiv : Number → Number → Except Fault Number :=
  divide "integer division or modulo by zero" "float floor division by zero"
    (fun a b => .ok (int (a.fdiv b))) fun a b => (divMod a b).1

def mod : Number → Number → Except Fault Number :=
  divide "integer modulo by zero" "float modulo" (fun a b => .ok (int (a.fmod b))) fun a b =>
    (divMod a b).2

def isWhole (x : Float) : Bool :=
  x.floor == x

def powFloat (a b : Float) : Except Fault (Option Number) :=
  if a == 0.0 && b < 0.0 then
    .error (zeroDivision "0.0 cannot be raised to a negative power")
  else if a < 0.0 && isFinite a && isFinite b && !isWhole b then .ok none
  else
    let x := a.pow b
    if x.isInf && isFinite a && isFinite b then
      .error ⟨.overflow, "(34, 'Numerical result out of range')"⟩
    else .ok (some (float x))

def pow : Number → Number → Except Fault (Option Number)
  | int a, int b =>
    if 0 ≤ b then .ok (some (int (Int.pow a b.toNat)))
    else do powFloat (← (int a).toFloat) (← (int b).toFloat)
  | x, y => do powFloat (← x.toFloat) (← y.toFloat)

def neg : Number → Number
  | int n => int (-n)
  | float x => float (-x)

def abs : Number → Number
  | int n => int n.natAbs
  | float x => float x.abs

end Number

end Appwright.Target
