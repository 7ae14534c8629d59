import Appwright.Decimal.Reading
import Appwright.Json.Basic

/-!
# Reading JSON text

A reader for JSON documents that says what it missed and where. It also takes the words `NaN`,
`Infinity` and `-Infinity` for numbers. Of two members with one name the later value counts, at the
place of the earlier.

The reader works on the list of characters that are left; a fault carries the rest of the document
at the place of the fault, from which its offset, line and column are counted.
-/

namespace Appwright.Json

open Text

inductive Fault where
  | expectingValue
  | expectingName
  | expectingColon
  | expectingComma
  | extraData
  | unterminatedString
  | controlCharacter
  | badEscape
  | badUnitEscape
  | byteOrderMark
deriving DecidableEq, Repr

def Fault.text : Fault → String
  | expectingValue => "Expecting value"
  | expectingName => "Expecting property name enclosed in double quotes"
  | expectingColon => "Expecting ':' delimiter"
  | expectingComma => "Expecting ',' delimiter"
  | extraData => "Extra data"
  | unterminatedString => "Unterminated string starting at"
  | controlCharacter => "Invalid control character at"
  | badEscape => "Invalid \\escape"
  | badUnitEscape => "Invalid \\uXXXX escape"
  | byteOrderMark => "Unexpected UTF-8 BOM (decode using utf-8-sig)"

inductive ReadError where
  | fault (what : Fault) (line column offset : Nat)
  /-- A whole number with more digits than are taken. -/
  | tooManyDigits (digits : Nat)
deriving DecidableEq, Repr

def ReadError.message : ReadError → String
  | .fault what line column offset =>
    s!"{what.text}: line {line} column {column} (char {offset})"
  | .tooManyDigits digits => Decimal.tooManyDigitsText digits

/-- Why reading stopped, with the rest of the document at the place of the fault. -/
inductive Stop where
  | fault (what : Fault) (rest : List Char)
  | tooManyDigits (digits : Nat)

def isGap (c : Char) : Bool :=
  c == ' ' || c == '\t' || c == '\n' || c == '\r'

def skipGap (cs : List Char) : List Char :=
  cs.dropWhile isGap

def unitValue? (a b c d : Char) : Option Nat := do
  let a ← hexValue? a
  let b ← hexValue? b
  let c ← hexValue? c
  let d ← hexValue? d
  return ((a * 16 + b) * 16 + c) * 16 + d

/-- The character for a single letter after a backslash. -/
def simpleEscape? (c : Char) : Option Char :=
  if c == '"' || c == '\\' || c == '/' then some c
  else if c == 'b' then some (Char.ofNat 8)
  else if c == 'f' then some (Char.ofNat 12)
  else if c == 'n' then some '\n'
  else if c == 'r' then some '\r'
  else if c == 't' then some '\t'
  else none

/-- The character of a code unit; a surrogate on its own has none and becomes the replacement
character. -/
def unitChar (n : Nat) : Char :=
  if 0xD800 ≤ n ∧ n < 0xE000 then Char.ofNat 0xFFFD else Char.ofNat n

/-- The rest of a string after its opening quote. `start` is the document from that quote on, and
`acc` holds what was read, backwards. -/
def readString (start acc : List Char) : List Char → Except Stop (String × List Char)
  | [] => .error (.fault .unterminatedString start)
  | '"' :: rest => .ok (String.ofList acc.reverse, rest)
  | ['\\'] => .error (.fault .unterminatedString start)
  | '\\' :: 'u' :: a :: b :: c :: d :: '\\' :: 'u' :: e :: f :: g :: h :: last :: rest =>
    match unitValue? a b c d with
    | none =>
      .error (.fault .badUnitEscape
        ('u' :: a :: b :: c :: d :: '\\' :: 'u' :: e :: f :: g :: h :: last :: rest))
    | some high =>
      if 0xD800 ≤ high ∧ high < 0xDC00 then
        match unitValue? e f g h with
        | none => .error (.fault .badUnitEscape ('u' :: e :: f :: g :: h :: last :: rest))
        | some low =>
          if 0xDC00 ≤ low ∧ low < 0xE000 then
            let code := 0x10000 + (high - 0xD800) * 0x400 + (low - 0xDC00)
            readString start (Char.ofNat code :: acc) (last :: rest)
          else
            readString start (unitChar high :: acc)
              ('\\' :: 'u' :: e :: f :: g :: h :: last :: rest)
      else
        readString start (unitChar high :: acc) ('\\' :: 'u' :: e :: f :: g :: h :: last :: rest)
  | '\\' :: 'u' :: a :: b :: c :: d :: last :: rest =>
    match unitValue? a b c d with
    | none => .error (.fault .badUnitEscape ('u' :: a :: b :: c :: d :: last :: rest))
    | some code => readString start (unitChar code :: acc) (last :: rest)
  | '\\' :: c :: rest =>
    match simpleEscape? c with
    | some d => readString start (d :: acc) rest
    | none =>
      if c == 'u' then .error (.fault .badUnitEscape (c :: rest))
      else .error (.fault .badEscape ('\\' :: c :: rest))
  | c :: rest =>
    if c.toNat < 32 then .error (.fault .controlCharacter (c :: rest))
    else readString start (c :: acc) rest

def takeFraction : List Char → Option (List Char) × List Char
  | '.' :: d :: rest =>
    if d.isDigit then
      (some (d :: rest.takeWhile Char.isDigit), rest.dropWhile Char.isDigit)
    else (none, '.' :: d :: rest)
  | cs => (none, cs)

def takeExponent : List Char → Option Int × List Char
  | [] => (none, [])
  | m :: rest =>
    if m == 'e' || m == 'E' then
      let (negative, ds) := Decimal.takeSign rest
      let digits := ds.takeWhile Char.isDigit
      if digits.isEmpty then (none, m :: rest)
      else
        let n : Int := decimalOf digits
        (some (if negative then -n else n), ds.dropWhile Char.isDigit)
    else (none, m :: rest)

/-- The whole part of a number without its sign: a zero, or digits that do not start with one. -/
def takeWhole? : List Char → Option (List Char × List Char)
  | '0' :: rest => some (['0'], rest)
  | d :: rest =>
    if d.isDigit then some (d :: rest.takeWhile Char.isDigit, rest.dropWhile Char.isDigit)
    else none
  | [] => none

def readNumber (start : List Char) : Except Stop (Json × List Char) :=
  let (negative, cs) := match start with
    | '-' :: cs => (true, cs)
    | cs => (false, cs)
  match takeWhole? cs with
  | none => .error (.fault .expectingValue start)
  | some (whole, rest) =>
    match takeFraction rest with
    | (fraction, rest) =>
      match takeExponent rest with
      | (exponent, rest) =>
        if fraction.isNone && exponent.isNone then
          if Decimal.maxDigits < whole.length then .error (.tooManyDigits whole.length)
          else
            let n : Int := decimalOf whole
            .ok (.int (if negative then -n else n), rest)
        else
          let numeral : Decimal.Numeral := ⟨whole, fraction.getD [], exponent.getD 0⟩
          .ok (.float (numeral.toFloat negative), rest)

def constants : List (List Char × Json) :=
  [("null".toList, .null), ("true".toList, .bool true), ("false".toList, .bool false),
   ("NaN".toList, .float (0.0 / 0.0)), ("Infinity".toList, .float (1.0 / 0.0)),
   ("-Infinity".toList, .float (-1.0 / 0.0))]

def readConstant? (cs : List Char) : Option (Json × List Char) :=
  constants.findSome? fun (word, v) => (after? word cs).map fun rest => (v, rest)

mutual
/-- A value; `fuel` bounds the nesting and the number of items. -/
def readValue : Nat → List Char → Except Stop (Json × List Char)
  | 0, cs => .error (.fault .expectingValue cs)
  | fuel + 1, cs =>
    match cs with
    | '"' :: rest => (readString cs [] rest).map fun (s, rest) => (.str s, rest)
    | '\x7b' :: rest =>
      match skipGap rest with
      | '\x7d' :: rest => .ok (.obj [], rest)
      | rest => (readMembers fuel [] rest).map fun (ms, rest) => (.obj ms, rest)
    | '[' :: rest =>
      match skipGap rest with
      | ']' :: rest => .ok (.arr [], rest)
      | rest => (readItems fuel [] rest).map fun (vs, rest) => (.arr vs, rest)
    | cs =>
      match readConstant? cs with
      | some found => .ok found
      | none => readNumber cs
def readItems : Nat → List Json → List Char → Except Stop (List Json × List Char)
  | 0, _, cs => .error (.fault .expectingValue cs)
  | fuel + 1, acc, cs =>
    match readValue fuel cs with
    | .error stop => .error stop
    | .ok (v, rest) =>
      match skipGap rest with
      | ']' :: rest => .ok ((v :: acc).reverse, rest)
      | ',' :: rest => readItems fuel (v :: acc) (skipGap rest)
      | rest => .error (.fault .expectingComma rest)
def readMembers : Nat → Members → List Char → Except Stop (Members × List Char)
  | 0, _, cs => .error (.fault .expectingValue cs)
  | fuel + 1, acc, cs =>
    match cs with
    | '"' :: rest =>
      match readString cs [] rest with
      | .error stop => .error stop
      | .ok (name, rest) =>
        match skipGap rest with
        | ':' :: rest =>
          match readValue fuel (skipGap rest) with
          | .error stop => .error stop
          | .ok (v, rest) =>
            let acc := Entries.put name v acc
            match skipGap rest with
            | '\x7d' :: rest => .ok (acc, rest)
            | ',' :: rest => readMembers fuel acc (skipGap rest)
            | rest => .error (.fault .expectingComma rest)
        | rest => .error (.fault .expectingColon rest)
    | cs => .error (.fault .expectingName cs)
end

def Stop.locate (document : List Char) : Stop → ReadError
  | .tooManyDigits n => .tooManyDigits n
  | .fault what rest =>
    let offset := document.length - rest.length
    let before := document.take offset
    let line := before.countP (· == '\n') + 1
    let column := (before.reverse.takeWhile (· != '\n')).length + 1
    .fault what line column offset

def readingFuel (cs : List Char) : Nat :=
  2 * cs.length + 2

def readFront (cs : List Char) : Except Stop (Json × List Char) :=
  readValue (readingFuel cs) cs

def readChars (cs : List Char) : Except Stop Json :=
  if cs.head? == some (Char.ofNat 0xFEFF) then .error (.fault .byteOrderMark cs)
  else
    match readFront (skipGap cs) with
    | .error stop => .error stop
    | .ok (v, rest) =>
      match skipGap rest with
      | [] => .ok v
      | rest => .error (.fault .extraData rest)

def read (s : String) : Except ReadError Json :=
  (readChars s.toList).mapError (Stop.locate s.toList)

end Appwright.Json
