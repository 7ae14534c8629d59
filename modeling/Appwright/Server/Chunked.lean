import Appwright.Text.Basic

/-!
# Chunked bodies

A body may come in chunks. Each chunk is a line with its size in hexadecimal, followed by so many
bytes and a line end; extensions after a semicolon do not count. A chunk of size zero ends the body,
after lines up to an empty one.
-/

namespace Appwright.Server.Chunked

inductive Error where
  | encoding
  | size
  | tooLarge
deriving DecidableEq, Repr

def Error.message : Error → String
  | encoding => "Invalid chunked encoding"
  | size => "Invalid chunk size"
  | tooLarge => "Payload too large"

def lineLimit : Nat := 65536

/-- The bytes up to a line feed, which is taken too, and the rest; at most so many bytes. -/
def takeLine : Nat → List UInt8 → List UInt8 × List UInt8
  | 0, bs => ([], bs)
  | _, [] => ([], [])
  | n + 1, b :: bs =>
    if b == 10 then ([b], bs)
    else
      let (line, rest) := takeLine n bs
      (b :: line, rest)

def isBlankByte (b : UInt8) : Bool :=
  b == 32 || (9 ≤ b && b ≤ 13)

def strip (line : List UInt8) : List UInt8 :=
  Text.dropLastWhile isBlankByte (line.dropWhile isBlankByte)

/-- Hexadecimal digits with single underscores between them; the flag says whether the last
character was a digit. -/
def hexDigits? (afterDigit : Bool) (value : Nat) : List Char → Option Nat
  | [] => if afterDigit then some value else none
  | '_' :: cs => if afterDigit then hexDigits? false value cs else none
  | c :: cs => do
    let d ← Text.hexValue? c
    hexDigits? true (16 * value + d) cs

/-- A whole number in hexadecimal, which may have a sign and the mark `0x`. -/
def readHex? (s : String) : Option Int :=
  let (negative, cs) := match (Text.trim s).toList with
    | '-' :: cs => (true, cs)
    | '+' :: cs => (false, cs)
    | cs => (false, cs)
  let digits := match cs with
    | '0' :: 'x' :: '_' :: cs => cs
    | '0' :: 'X' :: '_' :: cs => cs
    | '0' :: 'x' :: cs => cs
    | '0' :: 'X' :: cs => cs
    | cs => cs
  (hexDigits? false 0 digits).map fun n => if negative then -(n : Int) else n

def sizeOf? (line : List UInt8) : Option Int :=
  let front := (strip line).takeWhile (· != 59)
  if front.all (· < 128) then readHex? (String.ofList (front.map fun b => Char.ofNat b.toNat))
  else none

def skipTrailers : Nat → List UInt8 → List UInt8
  | 0, bs => bs
  | fuel + 1, bs =>
    let (line, rest) := takeLine lineLimit bs
    if line == [13, 10] || line == [10] || line.isEmpty then rest else skipTrailers fuel rest

def afterChunk : List UInt8 → Except Error (List UInt8)
  | 13 :: 10 :: rest => .ok rest
  | 10 :: rest => .ok rest
  | _ => .error .encoding

inductive Found where
  | finish (rest : List UInt8)
  | chunk (bytes rest : List UInt8)
  /-- Something else, after so many bytes of data were taken. -/
  | wrong (e : Error) (taken : Nat)
deriving Repr

/-- Reads a chunk, or the end. `got` bytes were read before, and `most` may be read in all. A size
below zero takes all that is left. -/
def readChunk (most : Int) (got : Nat) (stream : List UInt8) : Found :=
  match takeLine lineLimit stream with
  | ([], _) => .wrong .encoding 0
  | (line, rest) =>
    match sizeOf? line with
    | none => .wrong .size 0
    | some size =>
      if size = 0 then .finish (skipTrailers (rest.length + 1) rest)
      else if most < got + size then .wrong .tooLarge 0
      else if size < 0 then .wrong .encoding rest.length
      else
        let bytes := rest.take size.toNat
        if bytes.length < size.toNat then .wrong .encoding bytes.length
        else
          match afterChunk (rest.drop size.toNat) with
          | .ok rest => .chunk bytes rest
          | .error e => .wrong e bytes.length

/-- A body, or why there is none, with the number of bytes of data that were taken. -/
structure Outcome where
  body : Except Error (List UInt8 × List UInt8)
  taken : Nat

def readFrom (most : Int) : Nat → (got stream : List UInt8) → Outcome
  | 0, got, _ => ⟨.error .encoding, got.length⟩
  | fuel + 1, got, stream =>
    match readChunk most got.length stream with
    | .finish rest => ⟨.ok (got, rest), got.length⟩
    | .chunk bytes rest => readFrom most fuel (got ++ bytes) rest
    | .wrong e taken => ⟨.error e, got.length + taken⟩

/-- Reads a body of at most so many bytes; the rest of the stream comes with it. -/
def read (most : Int) (stream : List UInt8) : Outcome :=
  readFrom most (stream.length + 1) [] stream

end Appwright.Server.Chunked
