import Appwright.Decimal.Reading
import Appwright.Text.Moment
import Appwright.Toml.Basic

/-!
# Reading TOML

A document is a list of statements, one a line: a header opens a table or a new item of an array of
tables, and a pair of a key and a value adds to the table that is open. What is not a document is
read as nothing.
-/

namespace Appwright.Toml

/-! ## Numbers and moments -/

/-- A list of digits with single underscores between them: the digits, and what follows. The first
argument bounds their number. -/
def takeDigitsFrom (isDigit : Char → Bool) : Nat → List Char → List Char × List Char
  | 0, cs => ([], cs)
  | fuel + 1, '_' :: c :: cs =>
    if isDigit c then
      let (digits, rest) := takeDigitsFrom isDigit fuel cs
      (c :: digits, rest)
    else ([], '_' :: c :: cs)
  | fuel + 1, c :: cs =>
    if isDigit c then
      let (digits, rest) := takeDigitsFrom isDigit fuel cs
      (c :: digits, rest)
    else ([], c :: cs)
  | _ + 1, [] => ([], [])

def takeDigits? (isDigit : Char → Bool) : List Char → Option (List Char × List Char)
  | [] => none
  | c :: cs =>
    if isDigit c then
      let (digits, rest) := takeDigitsFrom isDigit cs.length cs
      some (c :: digits, rest)
    else none

def isHexDigit (c : Char) : Bool :=
  (Text.hexValue? c).isSome

def isOctalDigit (c : Char) : Bool :=
  '0' ≤ c && c ≤ '7'

def isBinaryDigit (c : Char) : Bool :=
  c == '0' || c == '1'

def ofDigits (base : Nat) (digits : List Char) : Nat :=
  digits.foldl (fun n c => base * n + (Text.hexValue? c).getD 0) 0

/-- A whole number in a base other than ten, after the letter of the base. -/
def readBased? (isDigit : Char → Bool) (base : Nat) (cs : List Char) : Option (Toml × List Char) :=
  (takeDigits? isDigit cs).map fun (digits, rest) => (.int (ofDigits base digits), rest)

/-- The whole part of a decimal number: a zero, or digits that do not start with one. -/
def takeWhole? : List Char → Option (List Char × List Char)
  | '0' :: cs => some (['0'], cs)
  | cs => takeDigits? Char.isDigit cs

def takeFraction : List Char → List Char × List Char
  | '.' :: cs =>
    match takeDigits? Char.isDigit cs with
    | some (digits, rest) => ('.' :: digits, rest)
    | none => ([], '.' :: cs)
  | cs => ([], cs)

def takeMark : List Char → List Char × List Char
  | '+' :: cs => (['+'], cs)
  | '-' :: cs => (['-'], cs)
  | cs => ([], cs)

def takeExponent : List Char → List Char × List Char
  | c :: cs =>
    if c == 'e' || c == 'E' then
      let (mark, rest) := takeMark cs
      match takeDigits? Char.isDigit rest with
      | some (digits, rest) => ('e' :: mark ++ digits, rest)
      | none => ([], c :: cs)
    else ([], c :: cs)
  | [] => ([], [])

def readDecimal? (cs : List Char) : Option (Toml × List Char) := do
  let (mark, rest) := takeMark cs
  let (whole, rest) ← takeWhole? rest
  let (fraction, rest) := takeFraction rest
  let (exponent, rest) := takeExponent rest
  if fraction.isEmpty && exponent.isEmpty then
    if Decimal.maxDigits < whole.length then none
    else
      let n : Int := ofDigits 10 whole
      some (.int (if mark == ['-'] then -n else n), rest)
  else
    let x ← Decimal.readFloat? (String.ofList (mark ++ whole ++ fraction ++ exponent))
    some (.float x, rest)

def readSpecial? (cs : List Char) : Option (Toml × List Char) := do
  let (mark, rest) := takeMark cs
  let word := rest.take 3
  if word == "inf".toList || word == "nan".toList then
    let x ← Decimal.readFloat? (String.ofList (mark ++ word))
    some (.float x, rest.drop 3)
  else none

def readNumber? (cs : List Char) : Option (Toml × List Char) :=
  let based := match cs with
    | '0' :: 'x' :: cs => readBased? isHexDigit 16 cs
    | '0' :: 'o' :: cs => readBased? isOctalDigit 8 cs
    | '0' :: 'b' :: cs => readBased? isBinaryDigit 2 cs
    | _ => none
  based.or ((readDecimal? cs).or (readSpecial? cs))

def readTwo? (low high : Nat) : List Char → Option (Nat × List Char)
  | a :: b :: cs =>
    let n := ofDigits 10 [a, b]
    if a.isDigit && b.isDigit && low ≤ n && n ≤ high then some (n, cs) else none
  | _ => none

def afterChar? (c : Char) : List Char → Option (List Char)
  | d :: cs => if d == c then some cs else none
  | [] => none

def afterTime? (cs : List Char) : Option (List Char) := do
  let (_, cs) ← readTwo? 0 23 cs
  let cs ← afterChar? ':' cs
  let (_, cs) ← readTwo? 0 59 cs
  let cs ← afterChar? ':' cs
  let (_, cs) ← readTwo? 0 59 cs
  match cs with
  | '.' :: rest => some (if (rest.head?.any Char.isDigit) then rest.dropWhile Char.isDigit else cs)
  | _ => some cs

def afterOffset (cs : List Char) : List Char :=
  let hours? (rest : List Char) : Option (List Char) := do
    let (_, rest) ← readTwo? 0 23 rest
    let rest ← afterChar? ':' rest
    let (_, rest) ← readTwo? 0 59 rest
    some rest
  match cs with
  | 'Z' :: rest | 'z' :: rest => rest
  | '+' :: rest | '-' :: rest => (hours? rest).getD cs
  | _ => cs

def afterDate? (cs : List Char) : Option (List Char) := do
  let (century, cs) ← readTwo? 0 99 cs
  let (years, cs) ← readTwo? 0 99 cs
  let cs ← afterChar? '-' cs
  let (month, cs) ← readTwo? 1 12 cs
  let cs ← afterChar? '-' cs
  let (day, cs) ← readTwo? 1 31 cs
  let year := 100 * century + years
  if 1 ≤ year && day ≤ Text.daysIn year month then some cs else none

def afterMoment? (cs : List Char) : Option (List Char) := do
  let rest ← afterDate? cs
  match rest with
  | c :: time =>
    if c == 'T' || c == 't' || c == ' ' then some (((afterTime? time).map afterOffset).getD rest)
    else some rest
  | [] => some []

def readMoment? (cs : List Char) : Option (Toml × List Char) :=
  ((afterMoment? cs).or (afterTime? cs)).map fun rest =>
    (.moment (String.ofList (cs.take (cs.length - rest.length))), rest)

/-! ## Documents -/

/-- The part of an inline table that is read: its members, and the values that nothing can be added
to. -/
structure Inline where
  members : Members := []
  frozen : List Key := []
deriving Inhabited, Repr

def Inline.assign? (t : Inline) (key : Key) (value : Toml) : Option Inline := do
  if t.frozen.any fun f => key.take f.length == f then none
  else
    let members ← update? false (addNew? (key.getLastD "") value) key.dropLast t.members
    some { members, frozen := if value.isNest then key :: t.frozen else t.frozen }

def readBool? : List Char → Option (Toml × List Char)
  | 't' :: 'r' :: 'u' :: 'e' :: cs => some (.bool true, cs)
  | 'f' :: 'a' :: 'l' :: 's' :: 'e' :: cs => some (.bool false, cs)
  | _ => none

def readPlain? (cs : List Char) : Option (Toml × List Char) :=
  ((readText? cs).map fun (s, rest) => (.text s, rest)).or
    ((readBool? cs).or ((readMoment? cs).or (readNumber? cs)))

def afterEquals? : List Char → Option (List Char)
  | '=' :: cs => some (skipSpace cs)
  | _ => none

mutual
/-- Reads a value; the first argument bounds the depth and the number of values. -/
def readValue : Nat → List Char → Option (Toml × List Char)
  | 0, _ => none
  | fuel + 1, '[' :: cs => do
    let cs ← skipGaps cs
    let (items, rest) ← readItems fuel cs
    some (.array items, rest)
  | fuel + 1, '\x7b' :: cs =>
    match skipSpace cs with
    | '\x7d' :: rest => some (.table [], rest)
    | cs => (readPairs fuel {} cs).map fun (members, rest) => (.table members, rest)
  | _ + 1, cs => readPlain? cs
def readItems : Nat → List Char → Option (List Toml × List Char)
  | 0, _ => none
  | _ + 1, ']' :: rest => some ([], rest)
  | fuel + 1, cs => do
    let (item, rest) ← readValue fuel cs
    match ← skipGaps rest with
    | ']' :: rest => some ([item], rest)
    | ',' :: rest =>
      let (items, rest) ← readItems fuel (← skipGaps rest)
      some (item :: items, rest)
    | _ => none
def readPairs : Nat → Inline → List Char → Option (Members × List Char)
  | 0, _, _ => none
  | fuel + 1, t, cs => do
    let (key, rest) ← readKey cs
    let (value, rest) ← readValue fuel (← afterEquals? rest)
    let t ← t.assign? key value
    match skipSpace rest with
    | '\x7d' :: rest => some (t.members, rest)
    | ',' :: rest => readPairs fuel t (skipSpace rest)
    | _ => none
end

def readStatement (d : Draft) : List Char → Option (Draft × List Char)
  | '[' :: '[' :: cs => do
    let (key, rest) ← readKey (skipSpace cs)
    match rest with
    | ']' :: ']' :: rest => (d.openItem? key).map fun d => (d, rest)
    | _ => none
  | '[' :: cs => do
    let (key, rest) ← readKey (skipSpace cs)
    match rest with
    | ']' :: rest => (d.openTable? key).map fun d => (d, rest)
    | _ => none
  | '#' :: cs => some (d, '#' :: cs)
  | cs => do
    let (key, rest) ← readKey cs
    let (value, rest) ← readValue (rest.length + 1) (← afterEquals? rest)
    let d ← d.assign? key value
    some (d, rest)

/-- Reads the statements of a document; the first argument bounds their number. -/
def readStatements : Nat → Draft → List Char → Option Draft
  | 0, _, _ => none
  | fuel + 1, d, cs =>
    match skipSpace cs with
    | [] => some d
    | '\n' :: rest => readStatements fuel d rest
    | cs => do
      let (d, rest) ← readStatement d cs
      match ← skipComment (skipSpace rest) with
      | [] => some d
      | '\n' :: rest => readStatements fuel d rest
      | _ => none

def read? (document : String) : Option Members :=
  let cs := (Text.replaceAll "\r\n" "\n" document).toList
  (readStatements (cs.length + 1) {} cs).map Draft.members

end Appwright.Toml
