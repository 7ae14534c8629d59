import Appwright.Decimal.Reading

/-!
# Expressions of generated source

Operators bind, from loosest to tightest: `or`, `and`, `not`, comparisons, sums, products, a minus
sign in front, powers. A power binds tighter than a minus sign on its left and looser than one on
its right. All operators but the power group to the left.
-/

namespace Appwright.Target

/-! ## Words -/

inductive Token where
  | name (s : String)
  | int (n : Nat)
  | float (x : Float)
  | str (s : String)
  | op (s : String)
deriving Repr, Inhabited

def pairs : List (List Char) :=
  [['*', '*'], ['/', '/'], ['=', '='], ['!', '='], ['<', '='], ['>', '=']]

def hexOf (ds : List Char) : Nat :=
  ds.foldl (fun n c => 16 * n + (Text.hexValue? c).getD 0) 0

/-- The character of an escape and how many characters it takes after the backslash. -/
def escape (cs : List Char) : Char × Nat :=
  match cs with
  | 'n' :: _ => ('\n', 1)
  | 'r' :: _ => ('\r', 1)
  | 't' :: _ => ('\t', 1)
  | 'x' :: rest => (Char.ofNat (hexOf (rest.take 2)), 3)
  | 'u' :: rest => (Char.ofNat (hexOf (rest.take 4)), 5)
  | 'U' :: rest => (Char.ofNat (hexOf (rest.take 8)), 9)
  | c :: _ => (c, 1)
  | [] => ('\\', 0)

/-- The characters of a quoted text and how many characters are read, the closing quote included.
The second argument counts characters that belong to an escape. -/
def quotedBody (quote : Char) : Nat → List Char → List Char × Nat
  | _, [] => ([], 0)
  | skip + 1, _ :: cs =>
    let (body, n) := quotedBody quote skip cs
    (body, n + 1)
  | 0, c :: cs =>
    if c == quote then ([], 1)
    else if c == '\\' then
      let (e, width) := escape cs
      let (body, n) := quotedBody quote width cs
      (e :: body, n + 1)
    else
      let (body, n) := quotedBody quote 0 cs
      (c :: body, n + 1)

def takeExponent (cs : List Char) : List Char :=
  match cs with
  | e :: rest =>
    if e == 'e' || e == 'E' then
      let sign := rest.takeWhile fun c => c == '+' || c == '-'
      let digits := (rest.drop sign.length).takeWhile Char.isDigit
      if sign.length ≤ 1 && !digits.isEmpty then e :: sign ++ digits else []
    else []
  | [] => []

def numberFront (cs : List Char) : Token × Nat :=
  let whole := cs.takeWhile Char.isDigit
  let rest := cs.drop whole.length
  let fraction := match rest with
    | '.' :: more => '.' :: more.takeWhile Char.isDigit
    | _ => []
  let exponent := takeExponent (rest.drop fraction.length)
  let length := whole.length + fraction.length + exponent.length
  if fraction.isEmpty && exponent.isEmpty then (.int (Text.decimalOf whole), length)
  else
    let x := (Decimal.readNumeral? (cs.take length)).map fun n => n.toFloat false
    (.float (x.getD 0.0), length)

def front (c : Char) (cs : List Char) : Token × Nat :=
  if c.isDigit then numberFront (c :: cs)
  else if Text.isWord c then
    let word := (c :: cs).takeWhile Text.isWord
    (.name (String.ofList word), word.length)
  else if c == '\'' || c == '"' then
    let (body, n) := quotedBody c 0 cs
    (.str (String.ofList body), n + 1)
  else if pairs.contains ((c :: cs).take 2) then (.op (String.ofList ((c :: cs).take 2)), 2)
  else (.op (String.singleton c), 1)

/-- The words of a line. The first argument counts characters that belong to the word before. -/
def wordsFrom : Nat → List Char → List Token
  | _, [] => []
  | skip + 1, _ :: cs => wordsFrom skip cs
  | 0, c :: cs =>
    if c == ' ' || c == '\t' then wordsFrom 0 cs
    else
      let (token, length) := front c cs
      token :: wordsFrom (length - 1) cs

def tokens (line : String) : List Token :=
  wordsFrom 0 line.toList

/-! ## Expressions -/

inductive BinaryOp where
  | or | and
  | eq | ne | lt | gt | le | ge | isIn | notIn | is | isNot
  | add | sub
  | mul | div | floorDiv | mod
  | pow
deriving DecidableEq, Repr

inductive Expr where
  | name (s : String)
  | none
  | bool (b : Bool)
  | int (n : Nat)
  | float (x : Float)
  | str (s : String)
  | list (items : List Expr)
  | tuple (items : List Expr)
  | dict (entries : List (Expr × Expr))
  | attr (base : Expr) (name : String)
  | index (base key : Expr)
  | call (function : Expr) (args : List Expr) (named : List (String × Expr))
  | neg (e : Expr)
  | not (e : Expr)
  | binary (op : BinaryOp) (left right : Expr)
  | delayed (body : Expr)
deriving Repr, Inhabited

/-- The number of binding levels; an operand alone stands at the tightest. -/
def powerLevel : Nat := 6

def operatorAt? (level : Nat) (ts : List Token) : Option (BinaryOp × List Token) :=
  match level, ts with
  | 0, .name "or" :: rest => some (.or, rest)
  | 1, .name "and" :: rest => some (.and, rest)
  | 3, .op "==" :: rest => some (.eq, rest)
  | 3, .op "!=" :: rest => some (.ne, rest)
  | 3, .op "<" :: rest => some (.lt, rest)
  | 3, .op ">" :: rest => some (.gt, rest)
  | 3, .op "<=" :: rest => some (.le, rest)
  | 3, .op ">=" :: rest => some (.ge, rest)
  | 3, .name "in" :: rest => some (.isIn, rest)
  | 3, .name "not" :: .name "in" :: rest => some (.notIn, rest)
  | 3, .name "is" :: .name "not" :: rest => some (.isNot, rest)
  | 3, .name "is" :: rest => some (.is, rest)
  | 4, .op "+" :: rest => some (.add, rest)
  | 4, .op "-" :: rest => some (.sub, rest)
  | 5, .op "*" :: rest => some (.mul, rest)
  | 5, .op "/" :: rest => some (.div, rest)
  | 5, .op "//" :: rest => some (.floorDiv, rest)
  | 5, .op "%" :: rest => some (.mod, rest)
  | _, _ => none

def plainName? (s : String) : Expr :=
  match s with
  | "None" => .none
  | "True" => .bool true
  | "False" => .bool false
  | s => .name s

mutual
/-- Reads an expression of a level. The first argument is fuel. -/
def readAt : Nat → Nat → List Token → Option (Expr × List Token)
  | 0, _, _ => none
  | fuel + 1, level, ts =>
    match level, ts with
    | 0, .name "lambda" :: .op ":" :: rest => do
      let (body, rest) ← readAt fuel 0 rest
      return (.delayed body, rest)
    | 2, .name "not" :: rest => do
      let (e, rest) ← readAt fuel 2 rest
      return (.not e, rest)
    | 6, .op "-" :: rest => do
      let (e, rest) ← readAt fuel 6 rest
      return (.neg e, rest)
    | 6, ts => readPower fuel ts
    | level, ts => do
      let (e, rest) ← readAt fuel (level + 1) ts
      readMore fuel level e rest
def readMore : Nat → Nat → Expr → List Token → Option (Expr × List Token)
  | 0, _, _, _ => none
  | fuel + 1, level, left, ts =>
    match operatorAt? level ts with
    | none => some (left, ts)
    | some (op, rest) => do
      let (right, rest) ← readAt fuel (level + 1) rest
      readMore fuel level (.binary op left right) rest
/-- Reads a power: an operand, and an exponent that may have a minus sign. -/
def readPower : Nat → List Token → Option (Expr × List Token)
  | 0, _ => none
  | fuel + 1, ts => do
    let (base, rest) ← readOperand fuel ts
    match rest with
    | .op "**" :: rest => do
      let (exponent, rest) ← readAt fuel powerLevel rest
      return (.binary .pow base exponent, rest)
    | rest => return (base, rest)
def readOperand : Nat → List Token → Option (Expr × List Token)
  | 0, _ => none
  | fuel + 1, ts => do
    let (e, rest) ← readAtom fuel ts
    readTrailers fuel e rest
def readTrailers : Nat → Expr → List Token → Option (Expr × List Token)
  | 0, _, _ => none
  | fuel + 1, e, ts =>
    match ts with
    | .op "." :: .name s :: rest => readTrailers fuel (.attr e s) rest
    | .op "[" :: rest => do
      let (key, rest) ← readAt fuel 0 rest
      match rest with
      | .op "]" :: rest => readTrailers fuel (.index e key) rest
      | _ => none
    | .op "(" :: rest => do
      let ((args, named), rest) ← readArguments fuel rest
      readTrailers fuel (.call e args named) rest
    | ts => some (e, ts)
def readAtom : Nat → List Token → Option (Expr × List Token)
  | 0, _ => none
  | fuel + 1, ts =>
    match ts with
    | .name s :: rest => some (plainName? s, rest)
    | .int n :: rest => some (.int n, rest)
    | .float x :: rest => some (.float x, rest)
    | .str s :: rest => some (.str s, rest)
    | .op "(" :: rest => do
      let ((items, comma), rest) ← readItems fuel ")" rest
      match items, comma with
      | [e], false => return (e, rest)
      | items, _ => return (.tuple items, rest)
    | .op "[" :: rest => do
      let ((items, _), rest) ← readItems fuel "]" rest
      return (.list items, rest)
    | .op "\x7b" :: rest => do
      let (entries, rest) ← readEntries fuel rest
      return (.dict entries, rest)
    | _ => none
/-- Reads expressions between commas up to a closing bracket, and whether there was a comma. -/
def readItems : Nat → String → List Token → Option ((List Expr × Bool) × List Token)
  | 0, _, _ => none
  | fuel + 1, closing, ts =>
    match ts with
    | .op s :: rest =>
      if s == closing then some (([], false), rest) else readItem fuel closing (.op s :: rest)
    | ts => readItem fuel closing ts
def readItem : Nat → String → List Token → Option ((List Expr × Bool) × List Token)
  | 0, _, _ => none
  | fuel + 1, closing, ts => do
    let (e, rest) ← readAt fuel 0 ts
    match rest with
    | .op "," :: rest => do
      let ((items, _), rest) ← readItems fuel closing rest
      return ((e :: items, true), rest)
    | .op s :: rest => if s == closing then return (([e], false), rest) else none
    | _ => none
def readEntries : Nat → List Token → Option ((List (Expr × Expr)) × List Token)
  | 0, _ => none
  | fuel + 1, ts =>
    match ts with
    | .op "\x7d" :: rest => some ([], rest)
    | ts => do
      let (key, rest) ← readAt fuel 0 ts
      match rest with
      | .op ":" :: rest => do
        let (v, rest) ← readAt fuel 0 rest
        match rest with
        | .op "," :: rest => do
          let (entries, rest) ← readEntries fuel rest
          return ((key, v) :: entries, rest)
        | .op "\x7d" :: rest => return ([(key, v)], rest)
        | _ => none
      | _ => none
/-- Reads the arguments of a call up to its closing bracket, those with names apart. -/
def readArguments : Nat → List Token → Option ((List Expr × List (String × Expr)) × List Token)
  | 0, _ => none
  | fuel + 1, ts =>
    match ts with
    | .op ")" :: rest => some (([], []), rest)
    | .name s :: .op "=" :: rest => do
      let (v, rest) ← readAt fuel 0 rest
      let ((args, named), rest) ← readNextArgument fuel rest
      return ((args, (s, v) :: named), rest)
    | ts => do
      let (v, rest) ← readAt fuel 0 ts
      let ((args, named), rest) ← readNextArgument fuel rest
      return ((v :: args, named), rest)
def readNextArgument : Nat → List Token → Option ((List Expr × List (String × Expr)) × List Token)
  | 0, _ => none
  | fuel + 1, ts =>
    match ts with
    | .op "," :: rest => readArguments fuel rest
    | .op ")" :: rest => some (([], []), rest)
    | _ => none
end

def readingFuel (ts : List Token) : Nat :=
  16 * ts.length + 16

def readExpr (ts : List Token) : Option (Expr × List Token) :=
  readAt (readingFuel ts) 0 ts

def expr? (ts : List Token) : Option Expr :=
  match readExpr ts with
  | some (e, []) => some e
  | _ => none

end Appwright.Target
