import Appwright.Decimal.Shortest
import Appwright.Json.Basic

/-!
# JSON text

Values written as JSON. A style says whether characters beyond ASCII are written by their code
units, how nested values are indented and in which order the members of an object come; the rest is
fixed. What is not a finite number is written as one of three bare words.
-/

namespace Appwright.Json

structure Style where
  /-- Characters beyond ASCII are written as escapes. -/
  asciiOnly : Bool := false
  /-- Nested values stand on lines of their own, each level indented by this text. -/
  indent : Option String := none
  /-- The members of an object come in the order of their names. -/
  sortMembers : Bool := false
  itemGap : String := ", "
  nameGap : String := ": "

def compact : Style := {}

def ascii : Style := { asciiOnly := true }

def pretty : Style := { indent := some "  ", itemGap := "," }

def unitEscape (n : Nat) : List Char :=
  '\\' :: 'u' :: (Text.hex 4 n).toList

def escapedChar (asciiOnly : Bool) (c : Char) : List Char :=
  if c == '"' then ['\\', '"']
  else if c == '\\' then ['\\', '\\']
  else if c == '\n' then ['\\', 'n']
  else if c == '\r' then ['\\', 'r']
  else if c == '\t' then ['\\', 't']
  else if c.toNat == 12 then ['\\', 'f']
  else if c.toNat == 8 then ['\\', 'b']
  else if c.toNat < 32 then unitEscape c.toNat
  else if asciiOnly && 127 ≤ c.toNat then
    if c.toNat < 0x10000 then unitEscape c.toNat
    else
      let n := c.toNat - 0x10000
      unitEscape (0xD800 + n / 0x400) ++ unitEscape (0xDC00 + n % 0x400)
  else [c]

def stringChars (asciiOnly : Bool) (s : String) : List Char :=
  '"' :: s.toList.flatMap (escapedChar asciiOnly) ++ ['"']

/-- A float as a JSON number, or one of the three words for what is not finite. -/
def floatText (x : Float) : String :=
  if x.isNaN then "NaN"
  else if Decimal.isFinite x then Decimal.finiteText x
  else if Decimal.signBit x then "-Infinity" else "Infinity"

/-- The line break before an item at a level, empty for a one-line style. -/
def Style.break (style : Style) (level : Nat) : List Char :=
  match style.indent with
  | none => []
  | some unit => '\n' :: (Text.times level unit).toList

def joinChars (sep : List Char) : List (List Char) → List Char
  | [] => []
  | [piece] => piece
  | piece :: rest => piece ++ sep ++ joinChars sep rest

def bracketed (style : Style) (level : Nat) (left right : Char) (pieces : List (List Char)) :
    List Char :=
  if pieces.isEmpty then [left, right]
  else
    left :: style.break (level + 1) ++
      joinChars (style.itemGap.toList ++ style.break (level + 1)) pieces ++
      style.break level ++ [right]

def insertByName {α : Type} (e : String × α) : List (String × α) → List (String × α)
  | [] => [e]
  | x :: rest => if x.1 ≤ e.1 then x :: insertByName e rest else e :: x :: rest

def sortByName {α : Type} (es : List (String × α)) : List (String × α) :=
  es.foldl (fun acc e => insertByName e acc) []

mutual
def chars (style : Style) (level : Nat) : Json → List Char
  | null => "null".toList
  | bool true => "true".toList
  | bool false => "false".toList
  | int n => (Text.ofInt n).toList
  | float x => (floatText x).toList
  | str s => stringChars style.asciiOnly s
  | arr items => bracketed style level '[' ']' (itemChars style (level + 1) items)
  | obj members =>
    let pieces := memberChars style (level + 1) members
    let pieces := if style.sortMembers then sortByName pieces else pieces
    bracketed style level '\x7b' '\x7d' (pieces.map Prod.snd)
def itemChars (style : Style) (level : Nat) : List Json → List (List Char)
  | [] => []
  | v :: rest => chars style level v :: itemChars style level rest
def memberChars (style : Style) (level : Nat) : List (String × Json) → List (String × List Char)
  | [] => []
  | (k, v) :: rest =>
    (k, stringChars style.asciiOnly k ++ style.nameGap.toList ++ chars style level v) ::
      memberChars style level rest
end

def write (style : Style) (v : Json) : String :=
  String.ofList (chars style 0 v)

def encode (v : Json) : String :=
  v.write compact

/-! ## Literals

The text of a value in messages, templates and generated source.
-/

mutual
def literal : Json → String
  | null => "None"
  | bool true => "True"
  | bool false => "False"
  | int n => Text.ofInt n
  | float x => Decimal.text x
  | str s => Text.quoted s
  | arr items => "[" ++ String.intercalate ", " (literalItems items) ++ "]"
  | obj members => "\x7b" ++ String.intercalate ", " (literalMembers members) ++ "\x7d"
def literalItems : List Json → List String
  | [] => []
  | v :: rest => literal v :: literalItems rest
def literalMembers : List (String × Json) → List String
  | [] => []
  | (k, v) :: rest => (Text.quoted k ++ ": " ++ literal v) :: literalMembers rest
end

/-- A value as text: a string is itself, anything else its literal. -/
def display : Json → String
  | str s => s
  | v => literal v

end Appwright.Json
