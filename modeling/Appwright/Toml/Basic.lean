import Appwright.Entries
import Appwright.Text.Basic

/-!
# TOML documents

The values of a TOML document, and a document while it is read: its tables, and which of them can
still be opened or extended.
-/

namespace Appwright

inductive Toml where
  | text (s : String)
  | int (n : Int)
  | float (x : Float)
  | bool (b : Bool)
  | moment (written : String)
  | array (items : List Toml)
  | table (members : List (String × Toml))
deriving Inhabited, Repr

namespace Toml

abbrev Members := Entries Toml

abbrev Key := List String

def isNest : Toml → Bool
  | array _ | table _ => true
  | _ => false

/-- Changes the table that a key leads to and makes the tables that are missing on the way. Where
the way leads to an array and `throughArrays` is set, it goes on in the last item. -/
def update? (throughArrays : Bool) (change : Members → Option Members) :
    Key → Members → Option Members
  | [], members => change members
  | name :: key, members =>
    match members.get? name with
    | none => (update? throughArrays change key []).map fun inner => members.put name (.table inner)
    | some (.table inner) =>
      (update? throughArrays change key inner).map fun inner => members.put name (.table inner)
    | some (.array items) =>
      match throughArrays, items.getLast? with
      | true, some (.table inner) =>
        (update? throughArrays change key inner).map fun inner =>
          members.put name (.array (items.dropLast ++ [.table inner]))
      | _, _ => none
    | some _ => none

def addNew? (name : String) (value : Toml) (members : Members) : Option Members :=
  if members.has name then none else some (members.put name value)

def pushTable? (name : String) (members : Members) : Option Members :=
  match members.get? name with
  | none => some (members.put name (.array [.table []]))
  | some (.array items) => some (members.put name (.array (items ++ [.table []])))
  | some _ => none

structure Draft where
  members : Members := []
  /-- The tables that no header can open any more. -/
  closed : List Key := []
  /-- The tables that become closed at the next header. -/
  pending : List Key := []
  /-- The values that nothing can be added to, with all that is in them. -/
  frozen : List Key := []
  header : Key := []
deriving Inhabited, Repr

namespace Draft

def isFrozen (d : Draft) (key : Key) : Bool :=
  d.frozen.any fun f => key.take f.length == f

def settle (d : Draft) : Draft :=
  { d with closed := d.pending ++ d.closed, pending := [] }

def openTable? (d : Draft) (key : Key) : Option Draft := do
  let d := d.settle
  if d.closed.contains key || d.isFrozen key then none
  else
    let members ← update? true some key d.members
    some { d with members, closed := key :: d.closed, header := key }

/-- Opens a new item of an array of tables. What was said about the tables in the last item does not
hold for the new one. -/
def openItem? (d : Draft) (key : Key) : Option Draft := do
  let d := d.settle
  if d.isFrozen key then none
  else
    let others (keys : List Key) := keys.filter fun k => k.take key.length != key
    let members ← update? true (pushTable? (key.getLastD "")) key.dropLast d.members
    some {
      d with
      members
      closed := key :: others d.closed
      frozen := others d.frozen
      header := key }

/-- The keys of the tables that a key leads through, seen from the open table. -/
def passed (d : Draft) (key : Key) : List Key :=
  (List.range (key.length - 1)).map fun n => d.header ++ key.take (n + 1)

def assign? (d : Draft) (key : Key) (value : Toml) : Option Draft := do
  let passed := d.passed key
  let holder := d.header ++ key.dropLast
  if passed.any d.closed.contains || d.isFrozen holder then none
  else
    let members ← update? true (addNew? (key.getLastD "") value) holder d.members
    some {
      d with
      members
      pending := passed ++ d.pending
      frozen := if value.isNest then (d.header ++ key) :: d.frozen else d.frozen }

end Draft

end Toml

end Appwright

namespace Appwright.Toml

/-! ## Texts and keys

Basic strings have escapes, literal strings have none, and both have a form over several lines. A
key is a list of bare or quoted names between dots.
-/

def isSpace (c : Char) : Bool :=
  c == ' ' || c == '\t'

def isGap (c : Char) : Bool :=
  isSpace c || c == '\n'

def skipSpace (cs : List Char) : List Char :=
  cs.dropWhile isSpace

def isControl (c : Char) : Bool :=
  (c.toNat < 32 && c != '\t') || c.toNat == 127

def isControlInLines (c : Char) : Bool :=
  isControl c && c != '\n'

/-- The character with a code, written in a number of hexadecimal digits. -/
def readCode (digits : Nat) (cs : List Char) : Option (Char × List Char) := do
  let values ← (cs.take digits).mapM Text.hexValue?
  let code := values.foldl (fun n v => 16 * n + v) 0
  if values.length == digits && code.isValidChar then
    some (Char.ofNat code, cs.drop digits)
  else none

/-- What an escape stands for and what follows it. A line feed that is escaped stands for nothing,
and so do the gaps around it. -/
def readEscape (lines : Bool) : List Char → Option (List Char × List Char)
  | 'b' :: cs => some (['\x08'], cs)
  | 't' :: cs => some (['\t'], cs)
  | 'n' :: cs => some (['\n'], cs)
  | 'f' :: cs => some (['\x0c'], cs)
  | 'r' :: cs => some (['\r'], cs)
  | '"' :: cs => some (['"'], cs)
  | '\\' :: cs => some (['\\'], cs)
  | 'u' :: cs => (readCode 4 cs).map fun (c, cs) => ([c], cs)
  | 'U' :: cs => (readCode 8 cs).map fun (c, cs) => ([c], cs)
  | cs =>
    match lines, skipSpace cs with
    | true, '\n' :: cs => some ([], cs.dropWhile isGap)
    | _, _ => none

/-- Up to two quotes that stand before the closing ones. -/
def takeQuotes (quote : Char) (cs : List Char) : List Char × List Char :=
  let quotes := (cs.take 2).takeWhile (· == quote)
  (quotes, cs.drop quotes.length)

/-- Reads a basic string after its opening quotes; `acc` holds what is read, backwards. The first
argument bounds the length. -/
def readBasic (lines : Bool) : Nat → (acc : List Char) → List Char → Option (String × List Char)
  | 0, _, _ => none
  | _, _, [] => none
  | fuel + 1, acc, '"' :: cs =>
    if lines then
      match cs with
      | '"' :: '"' :: cs =>
        let (quotes, rest) := takeQuotes '"' cs
        some (String.ofList (acc.reverse ++ quotes), rest)
      | _ => readBasic lines fuel ('"' :: acc) cs
    else some (String.ofList acc.reverse, cs)
  | fuel + 1, acc, '\\' :: cs =>
    match readEscape lines cs with
    | some (piece, rest) => readBasic lines fuel (piece ++ acc) rest
    | none => none
  | fuel + 1, acc, c :: cs =>
    if (if lines then isControlInLines c else isControl c) then none
    else readBasic lines fuel (c :: acc) cs

def readLiteral (cs : List Char) : Option (String × List Char) :=
  let body := cs.takeWhile (· != '\'')
  match cs.dropWhile (· != '\'') with
  | _ :: rest => if body.any isControl then none else some (String.ofList body, rest)
  | [] => none

def readLiteralLines (cs : List Char) : Option (String × List Char) :=
  match Text.cut? "'''".toList cs with
  | some (body, rest) =>
    let (quotes, rest) := takeQuotes '\'' rest
    if body.any isControlInLines then none else some (String.ofList (body ++ quotes), rest)
  | none => none

def dropFirstFeed : List Char → List Char
  | '\n' :: cs => cs
  | cs => cs

def readText? : List Char → Option (String × List Char)
  | '"' :: '"' :: '"' :: cs => readBasic true (cs.length + 1) [] (dropFirstFeed cs)
  | '"' :: cs => readBasic false (cs.length + 1) [] cs
  | '\'' :: '\'' :: '\'' :: cs => readLiteralLines (dropFirstFeed cs)
  | '\'' :: cs => readLiteral cs
  | _ => none

def isBare (c : Char) : Bool :=
  c.isAlphanum || c == '-' || c == '_'

def readName : List Char → Option (String × List Char)
  | '"' :: cs => readBasic false (cs.length + 1) [] cs
  | '\'' :: cs => readLiteral cs
  | cs =>
    let name := cs.takeWhile isBare
    if name.isEmpty then none else some (String.ofList name, cs.dropWhile isBare)

/-- Reads a key and the blanks after it; the first argument bounds the number of names. -/
def readKeyFrom : Nat → List Char → Option (Key × List Char)
  | 0, _ => none
  | fuel + 1, cs => do
    let (name, rest) ← readName cs
    match skipSpace rest with
    | '.' :: rest =>
      let (key, rest) ← readKeyFrom fuel (skipSpace rest)
      some (name :: key, rest)
    | rest => some ([name], rest)

def readKey (cs : List Char) : Option (Key × List Char) :=
  readKeyFrom (cs.length + 1) cs

def skipComment : List Char → Option (List Char)
  | '#' :: cs =>
    if (cs.takeWhile (· != '\n')).any isControl then none else some (cs.dropWhile (· != '\n'))
  | cs => some cs

/-- Skips blanks, line feeds and comments; the first argument bounds the number of comments. -/
def skipGapsFrom : Nat → List Char → Option (List Char)
  | 0, cs => some cs
  | fuel + 1, cs =>
    match cs.dropWhile isGap with
    | '#' :: cs => (skipComment ('#' :: cs)).bind (skipGapsFrom fuel)
    | cs => some cs

def skipGaps (cs : List Char) : Option (List Char) :=
  skipGapsFrom cs.length cs

end Appwright.Toml
