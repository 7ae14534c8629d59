import Appwright.Entries
import Appwright.Text.Basic
import Appwright.Text.Utf8

/-!
# Form data

Names with values, written one after another as in the query of an address: a blank is a plus sign,
and every byte but letters, digits and four signs is a percent sign with two hexadecimal digits.
Reading drops what has no value and gives each name all its values.
-/

namespace Appwright.Url

def isPlainByte (b : UInt8) : Bool :=
  let c := Char.ofNat b.toNat
  c.isAlphanum || c == '_' || c == '.' || c == '-' || c == '~'

def hexDigit (n : Nat) : Char :=
  if n < 10 then Char.ofNat (48 + n) else Char.ofNat (55 + n)

def quoteByte (b : UInt8) : List Char :=
  if isPlainByte b then [Char.ofNat b.toNat]
  else if b == 32 then ['+']
  else ['%', hexDigit (b.toNat / 16), hexDigit (b.toNat % 16)]

def quote (s : String) : String :=
  String.ofList ((Text.encode s).flatMap quoteByte)

def encodeForm (fields : Entries String) : String :=
  String.intercalate "&" (fields.map fun f => quote f.1 ++ "=" ++ quote f.2)

/-- The bytes of a written text whose bytes are all ASCII; a percent sign without two digits stands
for itself. -/
def unquoteBytes : List Char → List UInt8
  | '%' :: a :: b :: rest =>
    match Text.hexValue? a, Text.hexValue? b with
    | some m, some n => UInt8.ofNat (16 * m + n) :: unquoteBytes rest
    | _, _ => 37 :: unquoteBytes (a :: b :: rest)
  | c :: rest => UInt8.ofNat c.toNat :: unquoteBytes rest
  | [] => []

/-- Cuts a text into runs of characters that are all ASCII or all beyond it. -/
def asciiRuns : List Char → List (Bool × List Char)
  | [] => []
  | c :: rest =>
    let isAscii := c.toNat < 128
    match asciiRuns rest with
    | (kind, run) :: more =>
      if kind == isAscii then (kind, c :: run) :: more else (isAscii, [c]) :: (kind, run) :: more
    | [] => [(isAscii, [c])]

/-- The text that was written. Bytes that are no text become marks. -/
def unquote (s : String) : String :=
  let cs := s.toList.map fun c => if c == '+' then ' ' else c
  String.join ((asciiRuns cs).map fun (isAscii, run) =>
    if isAscii then Text.decodeLossy (unquoteBytes run) else String.ofList run)

def addValue (name v : String) : Entries (List String) → Entries (List String)
  | [] => [(name, [v])]
  | (n, vs) :: rest =>
    if n == name then (n, vs ++ [v]) :: rest else (n, vs) :: addValue name v rest

def readField (s : String) : Option (String × String) :=
  match Text.cutText? "=" s with
  | some (name, v) => if v.isEmpty then none else some (unquote name, unquote v)
  | none => none

def readForm (s : String) : Entries (List String) :=
  ((Text.splitChar '&' s).filterMap readField).foldl (fun fields f => addValue f.1 f.2 fields) []

def firstValue? (name : String) (fields : Entries (List String)) : Option String :=
  (fields.get? name).bind List.head?

end Appwright.Url
