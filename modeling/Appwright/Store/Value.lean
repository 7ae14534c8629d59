import Appwright.Decimal.Reading
import Appwright.Decimal.Shortest
import Appwright.Json.Basic

/-!
# Stored values

What a cell holds: nothing, a whole number of 64 bits, a float or a text. A column prefers one of
these kinds and converts what is written to it where nothing is lost.
-/

namespace Appwright.Store

open Decimal

inductive Value where
  | null
  | int (n : Int)
  | real (x : Float)
  | text (s : String)
deriving Repr, Inhabited

inductive Affinity where
  | text
  | integer
  | real
deriving DecidableEq, Repr

def Affinity.name : Affinity → String
  | text => "TEXT"
  | integer => "INTEGER"
  | real => "REAL"

namespace Value

def toJson : Value → Json
  | null => .null
  | int n => .int n
  | real x => .float x
  | text s => .str s

def fits (n : Int) : Bool :=
  -9223372036854775808 ≤ n && n ≤ 9223372036854775807

def isNumberBlank (c : Char) : Bool :=
  c == ' ' || ('\t' ≤ c && c ≤ '\r')

def number? (s : String) : Option Value :=
  let cs := (Text.dropEnds isNumberBlank s).toList
  let (negative, ds) := takeSign cs
  match readNumeral? ds with
  | none => none
  | some numeral =>
    let n : Int := if negative then -(Text.decimalOf ds : Int) else Text.decimalOf ds
    if ds.all Char.isDigit && fits n then some (int n)
    else some (real (numeral.toFloat negative))

def wholeIfEqual (x : Float) : Value :=
  if isFinite x then
    let n := truncate x
    if equalsInt n x && -9223372036854775808 < n && n < 9223372036854775807 then int n
    else real x
  else real x

def asText : Value → Value
  | int n => text (Text.ofInt n)
  | real x => text (significantText x)
  | v => v

def asNumber : Value → Value
  | text s => (number? s).getD (text s)
  | v => v

/-- What a column that prefers a kind makes of a value. Zero loses its sign. -/
def convert (a : Affinity) (v : Value) : Value :=
  match a with
  | .text => v.asText
  | .integer =>
    match v.asNumber with
    | real x => wholeIfEqual x
    | w => w
  | .real =>
    match v.asNumber with
    | int n => real (Float.ofInt n)
    | real x => real (if x == 0.0 then 0.0 else x)
    | w => w

/-- The rank of a value's kind: nothing, numbers, texts. -/
def rank : Value → Nat
  | null => 0
  | int _ | real _ => 1
  | text _ => 2

/-- The order of values: first by kind, then numbers by their value and texts by their
characters. -/
def order : Value → Value → Ordering
  | int a, int b => compare a b
  | int a, real y => (compareInt? a y).getD .eq
  | real x, int b => ((compareInt? b x).getD .eq).swap
  | real x, real y => if x < y then .lt else if y < x then .gt else .eq
  | text s, text t => Text.compare s t
  | v, w => compare v.rank w.rank

def equals (a : Affinity) (cell given : Value) : Bool :=
  let other := match a with
    | .text => given.asText
    | _ => given.asNumber
  match cell, other with
  | null, _ | _, null => false
  | v, w => order v w == .eq

def text? : Value → Option String
  | text s => some s
  | null => none
  | v =>
    match v.asText with
    | text s => some s
    | _ => none

end Value

end Appwright.Store
