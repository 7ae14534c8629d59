import Appwright.Decimal.Binary
import Appwright.Text.Basic

/-!
# Numbers read from text

Decimal numerals become the nearest float, whole numerals an integer of any size.
-/

namespace Appwright.Decimal

open Text

/-- The float nearest to `± digits · 10 ^ exponent`. Exponents beyond the range of floats give
zero or an infinity without computing a large power. -/
def ofScaled (negative : Bool) (digits : Nat) (exponent : Int) : Float :=
  let size : Int := exponent + (Nat.toDigits 10 digits).length
  let bits : Nat :=
    if digits == 0 || size < -400 then 0
    else if size > 400 then infinityBits
    else nearestBits (digits * Nat.pow 10 exponent.toNat) (Nat.pow 10 (-exponent).toNat)
  Float.ofBits (UInt64.ofNat (if negative then 0x8000000000000000 + bits else bits))

structure Numeral where
  whole : List Char
  fraction : List Char
  exponent : Int

def Numeral.toFloat (negative : Bool) (n : Numeral) : Float :=
  ofScaled negative (decimalOf (n.whole ++ n.fraction)) (n.exponent - n.fraction.length)

def asciiDigits (cs : List Char) : List Char :=
  cs.map fun c => match decimalValue? c with
    | some v => Char.ofNat (48 + v)
    | none => c

/-- Removes single underscores that stand between two digits; nothing where one stands elsewhere. -/
def dropUnderscores? (previousDigit : Bool) : List Char → Option (List Char)
  | [] => some []
  | '_' :: d :: cs =>
    if previousDigit && d.isDigit then (dropUnderscores? true cs).map (d :: ·) else none
  | c :: cs => if c == '_' then none else (dropUnderscores? c.isDigit cs).map (c :: ·)

def takeSign : List Char → Bool × List Char
  | '-' :: cs => (true, cs)
  | '+' :: cs => (false, cs)
  | cs => (false, cs)

/-- The whole number that a text denotes: blanks at the ends, a sign and underscores between
digits are allowed, and digits of every script count. The number of digits comes along. -/
def readInt? (s : String) : Option (Int × Nat) :=
  let cs := asciiDigits (trim s).toList
  let (negative, rest) := takeSign cs
  match dropUnderscores? false rest with
  | none => none
  | some ds =>
    if ds.isEmpty || !ds.all Char.isDigit then none
    else
      let n : Int := decimalOf ds
      some (if negative then -n else n, ds.length)

def maxDigits : Nat := 4300

def tooManyDigitsText (digits : Nat) : String :=
  s!"Exceeds the limit ({maxDigits} digits) for integer string conversion: value has {digits}" ++
    " digits; use sys.set_int_max_str_digits() to increase the limit"

def hasText (n : Int) : Bool :=
  n.natAbs < Nat.pow 10 maxDigits

def noText : String :=
  s!"Exceeds the limit ({maxDigits} digits) for integer string conversion;" ++
    " use sys.set_int_max_str_digits() to increase the limit"

inductive IntError where
  | invalid (text : String)
  | tooManyDigits (digits : Nat)
deriving DecidableEq, Repr

/-- The wording of an integer error: the literal of the text is cut after 200 characters. -/
def IntError.message : IntError → String
  | invalid text =>
    "invalid literal for int() with base 10: " ++
      String.ofList ((quoted text).toList.take 200)
  | tooManyDigits digits => tooManyDigitsText digits

def readInt (s : String) : Except IntError Int :=
  match readInt? s with
  | none => .error (.invalid s)
  | some (n, digits) => if maxDigits < digits then .error (.tooManyDigits digits) else .ok n

/-- The exponent part of a numeral: nothing, or a mark, a sign and at least one digit. -/
def readExponent? : List Char → Option Int
  | [] => some 0
  | c :: cs =>
    if c == 'e' || c == 'E' then
      let (negative, ds) := takeSign cs
      if ds.isEmpty || !ds.all Char.isDigit then none
      else
        let n : Int := decimalOf ds
        some (if negative then -n else n)
    else none

/-- A numeral with an optional fraction and exponent, at least one digit in front of the
exponent. -/
def readNumeral? (cs : List Char) : Option Numeral :=
  let whole := cs.takeWhile Char.isDigit
  let rest := cs.dropWhile Char.isDigit
  let (fraction, rest) := match rest with
    | '.' :: more => (more.takeWhile Char.isDigit, more.dropWhile Char.isDigit)
    | _ => ([], rest)
  if whole.isEmpty && fraction.isEmpty then none
  else (readExponent? rest).map fun e => ⟨whole, fraction, e⟩

/-- The float that a text denotes: a numeral, or a word for an infinity or for no number, with
blanks at the ends and a sign allowed. -/
def readFloat? (s : String) : Option Float :=
  let cs := asciiDigits (trim s).toList
  let (negative, rest) := takeSign cs
  let word := (String.ofList rest).toLower
  if word == "inf" || word == "infinity" then some (if negative then -1.0 / 0.0 else 1.0 / 0.0)
  else if word == "nan" then some (0.0 / 0.0)
  else
    match dropUnderscores? false rest with
    | none => none
    | some ds => (readNumeral? ds).map fun n => n.toFloat negative

end Appwright.Decimal
