import Appwright.Decimal.Reading
import Appwright.Json.Basic

/-!
# Numbers from JSON values

What a value is as a whole number and as a float: numbers convert, texts are read, everything else
is refused. And whether the whole numbers of a value are short enough to be written.
-/

namespace Appwright.Json

open Decimal

inductive NumberError where
  | notWhole (kind : String)
  | notReal (kind : String)
  | badWhole (cause : IntError)
  | badReal (text : String)
  | nan
  | infinite
  | tooLarge
  | noText
deriving DecidableEq, Repr

def NumberError.message : NumberError → String
  | notWhole kind =>
    "int() argument must be a string, a bytes-like object or a real number, not '" ++ kind ++ "'"
  | notReal kind => "float() argument must be a string or a real number, not '" ++ kind ++ "'"
  | badWhole cause => cause.message
  | badReal text => "could not convert string to float: " ++ Text.quoted text
  | nan => "cannot convert float NaN to integer"
  | infinite => "cannot convert float infinity to integer"
  | tooLarge => "int too large to convert to float"
  | noText => Decimal.noText

/-- A value as a whole number; a float loses its fraction. -/
def toWhole : Json → Except NumberError Int
  | .int n => .ok n
  | .bool b => .ok (if b then 1 else 0)
  | .float x =>
    if x.isNaN then .error .nan
    else if x.isInf then .error .infinite
    else .ok (truncate x)
  | .str s => (readInt s).mapError .badWhole
  | v => .error (.notWhole v.kindName)

def toReal : Json → Except NumberError Float
  | .int n =>
    match ofInt? n with
    | some x => .ok x
    | none => .error .tooLarge
  | .bool b => .ok (if b then 1.0 else 0.0)
  | .float x => .ok x
  | .str s =>
    match readFloat? s with
    | some x => .ok x
    | none => .error (.badReal s)
  | v => .error (.notReal v.kindName)

mutual
def isWritable : Json → Bool
  | .int n => hasText n
  | .arr items => itemsWritable items
  | .obj members => membersWritable members
  | _ => true
def itemsWritable : List Json → Bool
  | [] => true
  | v :: rest => v.isWritable && itemsWritable rest
def membersWritable : List (String × Json) → Bool
  | [] => true
  | (_, v) :: rest => v.isWritable && membersWritable rest
end

end Appwright.Json
