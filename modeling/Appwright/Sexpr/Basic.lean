import Appwright.Decimal.Reading
import Appwright.Decimal.Shortest

/-!
# Tokens and forms of program text

Program text is cut into parentheses and leaves by a machine that reads one character at a time.
Its mode says what it is inside of. A word ends at a blank or a parenthesis and is then a number, one
of three constants or a symbol. `assemble` builds forms from tokens with a stack of the lists that
are open; `flatten` writes them back.
-/

namespace Appwright.Sexpr

open Decimal

inductive Leaf where
  | int (n : Int)
  | float (x : Float)
  | bool (b : Bool)
  | null
  | str (s : String)
  | symbol (name : String)
deriving Repr, Inhabited

inductive Token where
  | opening
  | closing
  | leaf (value : Leaf)
deriving Repr, Inhabited

inductive TokenError where
  | unterminatedText
  | tooManyDigits (digits : Nat)
deriving DecidableEq, Repr

def TokenError.message : TokenError → String
  | unterminatedText => "Unterminated string literal"
  | tooManyDigits digits => tooManyDigitsText digits

/-- What the machine is inside of. What was read of a word or a text is held backwards. -/
inductive Mode where
  | between
  | comment
  | word (read : List Char)
  | text (read : List Char)
  | escape (read : List Char)

def isSpace (c : Char) : Bool :=
  c == ' ' || c == '\t' || c == '\r' || c == '\n'

def endsWord (c : Char) : Bool :=
  isSpace c || c == '(' || c == ')'

/-- The whole and the fractional digits of a word that is a number, with its sign. -/
def numeral? (word : List Char) : Option (Bool × List Char × Option (List Char)) :=
  let (negative, cs) := match word with
    | '-' :: cs => (true, cs)
    | cs => (false, cs)
  let whole := cs.takeWhile Text.isDecimal
  if whole.isEmpty then none
  else
    match cs.dropWhile Text.isDecimal with
    | [] => some (negative, whole, none)
    | '.' :: ds =>
      if !ds.isEmpty && ds.all Text.isDecimal then some (negative, whole, some ds) else none
    | _ => none

def classify (word : List Char) : Except TokenError Leaf :=
  match numeral? word with
  | some (negative, whole, none) =>
    if maxDigits < whole.length then .error (.tooManyDigits whole.length)
    else
      let n : Int := Text.decimalOf (asciiDigits whole)
      .ok (.int (if negative then -n else n))
  | some (negative, whole, some fraction) =>
    let numeral : Numeral :=
      ⟨asciiDigits whole, asciiDigits fraction, 0⟩
    .ok (.float (numeral.toFloat negative))
  | none =>
    if word == "true".toList then .ok (.bool true)
    else if word == "false".toList then .ok (.bool false)
    else if word == "null".toList then .ok .null
    else .ok (.symbol (String.ofList word))

def escaped (c : Char) : Char :=
  if c == 'n' then '\n' else if c == 't' then '\t' else if c == 'r' then '\r' else c

def stepBetween (c : Char) : List Token × Mode :=
  if isSpace c then ([], .between)
  else if c == '#' || c == ';' then ([], .comment)
  else if c == '(' then ([.opening], .between)
  else if c == ')' then ([.closing], .between)
  else if c == '"' then ([], .text [])
  else ([], .word [c])

def step : Mode → Char → Except TokenError (List Token × Mode)
  | .between, c => .ok (stepBetween c)
  | .comment, c => .ok ([], if c == '\n' then .between else .comment)
  | .word read, c =>
    if endsWord c then
      match classify read.reverse with
      | .error e => .error e
      | .ok leaf =>
        let (tokens, mode) := stepBetween c
        .ok (.leaf leaf :: tokens, mode)
    else .ok ([], .word (c :: read))
  | .text read, c =>
    if c == '\\' then .ok ([], .escape read)
    else if c == '"' then .ok ([.leaf (.str (String.ofList read.reverse))], .between)
    else .ok ([], .text (c :: read))
  | .escape read, c => .ok ([], .text (escaped c :: read))

def finish : Mode → Except TokenError (List Token)
  | .between => .ok []
  | .comment => .ok []
  | .word read => (classify read.reverse).map fun leaf => [.leaf leaf]
  | .text _ => .error .unterminatedText
  | .escape _ => .error .unterminatedText

def tokensFrom : Mode → List Char → Except TokenError (List Token)
  | mode, [] => finish mode
  | mode, c :: cs =>
    match step mode c with
    | .error e => .error e
    | .ok (tokens, next) =>
      match tokensFrom next cs with
      | .error e => .error e
      | .ok rest => .ok (tokens ++ rest)

def tokenize (source : String) : Except TokenError (List Token) :=
  tokensFrom .between source.toList

end Appwright.Sexpr

namespace Appwright

/-! ## Forms -/

inductive Form where
  | leaf (value : Sexpr.Leaf)
  | list (items : List Form)
deriving Repr, Inhabited

namespace Form

open Sexpr (Leaf Token)

inductive BalanceError where
  | unexpectedClosing
  | missingClosing
deriving DecidableEq, Repr

def BalanceError.message : BalanceError → String
  | unexpectedClosing => "Unexpected ')' "
  | missingClosing => "Missing closing parenthesis"

/-- Builds forms from tokens. `current` holds the forms of the innermost open list and `outer` those
of the lists around it, all backwards. -/
def assembleFrom (current : List Form) (outer : List (List Form)) :
    List Token → Except BalanceError (List Form)
  | [] => if outer.isEmpty then .ok current.reverse else .error .missingClosing
  | .opening :: rest => assembleFrom [] (current :: outer) rest
  | .leaf v :: rest => assembleFrom (.leaf v :: current) outer rest
  | .closing :: rest =>
    match outer with
    | [] => .error .unexpectedClosing
    | around :: outer => assembleFrom (.list current.reverse :: around) outer rest

def assemble (tokens : List Token) : Except BalanceError (List Form) :=
  assembleFrom [] [] tokens

mutual
def flatten : Form → List Token
  | .leaf v => [.leaf v]
  | .list items => .opening :: flattenAll items ++ [.closing]
def flattenAll : List Form → List Token
  | [] => []
  | f :: fs => flatten f ++ flattenAll fs
end

def symbol? : Form → Option String
  | .leaf (.symbol name) => some name
  | _ => none

def text? : Form → Option String
  | .leaf (.str s) => some s
  | _ => none

def leafLiteral : Leaf → String
  | .int n => Text.ofInt n
  | .float x => Decimal.text x
  | .bool b => if b then "True" else "False"
  | .null => "None"
  | .str s => Text.quoted s
  | .symbol name => "Symbol(name=" ++ Text.quoted name ++ ")"

mutual
def literal : Form → String
  | .leaf v => leafLiteral v
  | .list items => "[" ++ String.intercalate ", " (literals items) ++ "]"
def literals : List Form → List String
  | [] => []
  | f :: fs => literal f :: literals fs
end

/-- A form as text: a quoted leaf is its text, anything else its literal. -/
def display : Form → String
  | .leaf (.str s) => s
  | f => literal f

end Form

end Appwright
