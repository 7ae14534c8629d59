import Appwright.Decimal.Reading
import Appwright.Entries

/-!
# Failures of running programs

A failure has a kind, which programs name when they raise one and reports name when they tell it,
and a wording. Some failures cannot be told, since whole numbers that are too long have no text: to
tell one of them is a failure of its own.
-/

namespace Appwright.Target

def wordIn {α : Type} [DecidableEq α] (table : List (String × α)) (v : α) : String :=
  ((table.find? fun entry => entry.2 = v).map Prod.fst).getD ""

inductive ErrorKind where
  | exception
  | arithmetic | zeroDivision | overflow
  | lookup | index | key
  | name | unboundLocal
  | attr | type | assertion
  | value | guard | jsonDecode
  | runtime | recursion | timeout
  | other (name : String)
deriving DecidableEq, Repr, Inhabited

namespace ErrorKind

def named : List (String × ErrorKind) :=
  [("Exception", exception), ("ArithmeticError", arithmetic), ("ZeroDivisionError", zeroDivision),
    ("OverflowError", overflow), ("LookupError", lookup), ("IndexError", index),
    ("KeyError", key), ("NameError", name), ("UnboundLocalError", unboundLocal),
    ("AttributeError", attr), ("TypeError", type), ("AssertionError", assertion),
    ("ValueError", value), ("GuardError", guard), ("JSONDecodeError", jsonDecode),
    ("RuntimeError", runtime), ("RecursionError", recursion), ("TimeoutError", timeout)]

def word : ErrorKind → String
  | other s => s
  | k => wordIn named k

def ofWord (s : String) : ErrorKind :=
  (Entries.get? s named).getD (other s)

def parent? : ErrorKind → Option ErrorKind
  | exception => none
  | zeroDivision | overflow => some arithmetic
  | index | key => some lookup
  | unboundLocal => some name
  | guard | jsonDecode => some value
  | recursion | timeout => some runtime
  | _ => some exception

def isCaseOf (k l : ErrorKind) : Bool :=
  let up (x : Option ErrorKind) : Option ErrorKind := x.bind parent?
  [some k, up (some k), up (up (some k))].contains (some l)

end ErrorKind

structure Wording where
  text : String
  told : Bool := true
deriving DecidableEq, Repr, Inhabited

instance : Coe String Wording where
  coe text := { text }

instance : Append Wording where
  append v w := ⟨v.text ++ w.text, v.told && w.told⟩

namespace Wording

def ofInt (n : Int) : Wording :=
  ⟨Text.ofInt n, Decimal.hasText n⟩

def join (gap : String) (parts : List Wording) : Wording :=
  ⟨String.intercalate gap (parts.map text), parts.all told⟩

end Wording

structure Fault where
  kind : ErrorKind
  wording : Wording
deriving DecidableEq, Repr, Inhabited

namespace Fault

def ofType (message : String) : Fault := ⟨.type, message⟩

def ofValue (message : String) : Fault := ⟨.value, message⟩

def message (f : Fault) : String := f.wording.text

end Fault

def Wording.tell (w : Wording) : Except Fault String :=
  if w.told then .ok w.text else .error (.ofValue Decimal.noText)

/-- A failure as reports tell it, unless it cannot be told. -/
def Fault.text (f : Fault) : Except Fault String :=
  f.wording.tell.map fun message => f.kind.word ++ ": " ++ message

def tick (s : String) : String :=
  "'" ++ s ++ "'"

end Appwright.Target
