/-!
# Bytes as text

Text is stored as UTF-8. Bytes that are no UTF-8 are an error with its place, or are read as
replacement characters, one for each longest piece that could have begun a character.
-/

namespace Appwright.Text

inductive Utf8Fault where
  | invalidStart
  | invalidContinuation
  | unexpectedEnd
deriving DecidableEq, Repr

def Utf8Fault.text : Utf8Fault → String
  | invalidStart => "invalid start byte"
  | invalidContinuation => "invalid continuation byte"
  | unexpectedEnd => "unexpected end of data"

/-- What stands at the front of bytes: a character and its length, or a fault and the length of the
bytes at fault. -/
inductive Utf8Front where
  | char (c : Char) (length : Nat)
  | fault (what : Utf8Fault) (length : Nat)

def continuation? (low high : UInt8) (b : UInt8) : Option Nat :=
  if low ≤ b && b ≤ high then some (b.toNat % 64) else none

/-- Reads the continuation bytes of a character. The ranges say which bytes may follow. -/
def continueChar (value taken : Nat) : List (UInt8 × UInt8) → List UInt8 → Utf8Front
  | [], _ => .char (Char.ofNat value) taken
  | _ :: _, [] => .fault .unexpectedEnd taken
  | (low, high) :: more, b :: bs =>
    match continuation? low high b with
    | some v => continueChar (value * 64 + v) (taken + 1) more bs
    | none => .fault .invalidContinuation taken

def utf8Front (b : UInt8) (bs : List UInt8) : Utf8Front :=
  let any : UInt8 × UInt8 := (0x80, 0xBF)
  if b < 0x80 then .char (Char.ofNat b.toNat) 1
  else if b < 0xC2 then .fault .invalidStart 1
  else if b < 0xE0 then continueChar (b.toNat % 32) 1 [any] bs
  else if b == 0xE0 then continueChar 0 1 [(0xA0, 0xBF), any] bs
  else if b == 0xED then continueChar 13 1 [(0x80, 0x9F), any] bs
  else if b < 0xF0 then continueChar (b.toNat % 16) 1 [any, any] bs
  else if b == 0xF0 then continueChar 0 1 [(0x90, 0xBF), any, any] bs
  else if b < 0xF4 then continueChar (b.toNat % 8) 1 [any, any, any] bs
  else if b == 0xF4 then continueChar 4 1 [(0x80, 0x8F), any, any] bs
  else .fault .invalidStart 1

/-- The characters of bytes, with replacement characters for what is no UTF-8. The first argument
counts bytes that belong to what was read before. -/
def decodeFrom : Nat → List UInt8 → List Char
  | _, [] => []
  | skip + 1, _ :: bs => decodeFrom skip bs
  | 0, b :: bs =>
    match utf8Front b bs with
    | .char c length => c :: decodeFrom (length - 1) bs
    | .fault _ length => Char.ofNat 0xFFFD :: decodeFrom (length - 1) bs

def decodeLossy (bytes : List UInt8) : String :=
  String.ofList (decodeFrom 0 bytes)

structure Utf8Error where
  fault : Utf8Fault
  byte : UInt8
  position : Nat
  length : Nat
deriving DecidableEq, Repr

def hexByte (b : UInt8) : String :=
  let digits := Nat.toDigits 16 b.toNat
  String.ofList (List.replicate (2 - digits.length) '0' ++ digits)

def Utf8Error.message (e : Utf8Error) : String :=
  if e.length == 1 then
    s!"'utf-8' codec can't decode byte 0x{hexByte e.byte} in position {e.position}: {e.fault.text}"
  else
    let last := e.position + e.length - 1
    s!"'utf-8' codec can't decode bytes in position {e.position}-{last}: {e.fault.text}"

def decodeStrictFrom (position : Nat) : Nat → List UInt8 → Except Utf8Error (List Char)
  | _, [] => .ok []
  | skip + 1, _ :: bs => decodeStrictFrom (position + 1) skip bs
  | 0, b :: bs =>
    match utf8Front b bs with
    | .fault fault length => .error { fault, byte := b, position, length }
    | .char c length =>
      match decodeStrictFrom (position + 1) (length - 1) bs with
      | .ok cs => .ok (c :: cs)
      | .error e => .error e

def decode (bytes : List UInt8) : Except Utf8Error String :=
  (decodeStrictFrom 0 0 bytes).map String.ofList

def encode (s : String) : List UInt8 :=
  s.toUTF8.toList

/-! ## Base 64

Characters outside the alphabet do not count, and padding ends the text where it completes a group
of four.
-/

def base64Value? (c : Char) : Option Nat :=
  let n := c.toNat
  if 'A' ≤ c && c ≤ 'Z' then some (n - 65)
  else if 'a' ≤ c && c ≤ 'z' then some (n - 71)
  else if '0' ≤ c && c ≤ '9' then some (n + 4)
  else if c == '+' then some 62
  else if c == '/' then some 63
  else none

/-- Reads on after some characters of a group: `place` of them, of which `left` holds the bits that
are not used yet, and `pads` signs of padding. -/
def base64From (place left pads : Nat) : List Char → Option (List UInt8)
  | [] => if place == 0 then some [] else none
  | c :: cs =>
    if c == '=' then
      if 2 ≤ place && 4 ≤ place + pads + 1 then some []
      else base64From place left (if 2 ≤ place then pads + 1 else pads) cs
    else
      match base64Value? c with
      | none => base64From place left pads cs
      | some v =>
        match place with
        | 0 => base64From 1 v 0 cs
        | 1 => (base64From 2 (v % 16) 0 cs).map (UInt8.ofNat (left * 4 + v / 16) :: ·)
        | 2 => (base64From 3 (v % 4) 0 cs).map (UInt8.ofNat (left * 16 + v / 4) :: ·)
        | _ => (base64From 0 0 0 cs).map (UInt8.ofNat (left * 64 + v) :: ·)

def decodeBase64? (s : String) : Option (List UInt8) :=
  if s.toList.all fun c => c.toNat < 128 then base64From 0 0 0 s.toList else none

end Appwright.Text
