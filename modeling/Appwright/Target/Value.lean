import Appwright.Outbound.Policy
import Appwright.Target.Data
import Appwright.Target.Number
import Appwright.Target.Stmt
import Appwright.Trace.Step

/-!
# Values and the state of a run

A list is a cell of the run's memory, so that whoever holds it sees what is appended to it. All
other values never change.
-/

namespace Appwright.Target

inductive BaseType where
  | int | float | bool | str | list | tuple | dict | range | object
deriving DecidableEq, Repr

def BaseType.all : List (String × BaseType) :=
  [("int", .int), ("float", .float), ("bool", .bool), ("str", .str), ("list", .list),
    ("tuple", .tuple), ("dict", .dict), ("range", .range), ("object", .object)]

def BaseType.word : BaseType → String :=
  wordIn all

inductive Builtin where
  | len | abs | sum | max | min | sorted | isinstance
deriving DecidableEq, Repr

def Builtin.all : List (String × Builtin) :=
  [("len", .len), ("abs", .abs), ("sum", .sum), ("max", .max), ("min", .min), ("sorted", .sorted),
    ("isinstance", .isinstance)]

def Builtin.word : Builtin → String :=
  wordIn all

inductive Library where
  | log | nowIso | toJson | fromJson | ensure | safeGet | env
  | validateSchema | validateModel | parallel
deriving DecidableEq, Repr

def Library.all : List (String × Library) :=
  [("log", .log), ("now_iso", .nowIso), ("to_json", .toJson), ("from_json", .fromJson),
    ("ensure", .ensure), ("safe_get", .safeGet), ("env", .env),
    ("validate_jsonschema", .validateSchema), ("validate_pydantic", .validateModel),
    ("parallel", .parallel)]

def Library.word : Library → String :=
  wordIn all

structure Function where
  name : String
  params : List String
  body : List Stmt
  settings : Option Trace.Settings
  /-- The place of the definition, by which functions are told apart. -/
  identity : Nat
deriving Repr

inductive Value where
  | none
  | bool (b : Bool)
  | int (n : Int)
  | float (x : Float)
  | str (s : String)
  | symbol (name : String)
  | list (cell : Nat)
  | tuple (items : List Value)
  | dict (entries : List (Value × Value))
  | range (start stop step : Int)
  | imaginary
  | base (t : BaseType)
  | failure (k : ErrorKind)
  | error (k : ErrorKind) (args : List Value)
  | builtin (f : Builtin)
  | library (f : Library)
  | method (self : Value) (name : String)
  | function (f : Function)
  /-- A delayed expression, with the names and the values of the function around it. -/
  | delayed (body : Expr) (names : Option (List String)) (locals : List (String × Value))
  | stepMaker
  | decorator (settings : Trace.Settings)
  | module (name : String)
deriving Repr, Inhabited

structure Machine where
  cells : Array (List Value) := #[]
  globals : Entries Value := []
  locals : Entries Value := []
  environment : Outbound.Environment := []
  definitions : Nat := 0
  calls : Nat := 0

/-- A computation of values: it reaches the memory and the names, but not the report. -/
abbrev Calc (α : Type) := EStateM Fault Machine α

abbrev Eval (α : Type) := Trace.Run Machine Value Fault α

namespace Value

def rangeLength (start stop step : Int) : Nat :=
  if 0 < step then ((stop - start + step - 1).fdiv step).toNat
  else if step < 0 then ((start - stop - step - 1).fdiv (-step)).toNat
  else 0

def rangeItems (start stop step : Int) : List Value :=
  (List.range (rangeLength start stop step)).map fun (i : Nat) => .int (start + i * step)

def rangeWording (start stop step : Int) : Wording :=
  let ends := if step == 1 then [start, stop] else [start, stop, step]
  "range(" ++ .join ", " (ends.map .ofInt) ++ ")"

def number? : Value → Option Number
  | int n => some (.int n)
  | bool b => some (.int (if b then 1 else 0))
  | float x => some (.float x)
  | _ => .none

def ofNumber : Number → Value
  | .int n => int n
  | .float x => float x

def whole? : Value → Option Int
  | int n => some n
  | bool b => some (if b then 1 else 0)
  | _ => .none

def classText (word : String) : String :=
  "<class " ++ tick word ++ ">"

/-- A value with the items of its lists as they are now. The second argument bounds how deep lists
are followed. -/
def data (cells : Array (List Value)) : Nat → Value → Data
  | 0, _ => .other "list" "[...]" 0
  | fuel + 1, v =>
    match v with
    | none => .none
    | bool b => .bool b
    | int n => .int n
    | float x => .float x
    | str s => .str s
    | symbol s => .symbol s
    | list cell => .list ((cells[cell]?.getD []).map (data cells fuel))
    | tuple items => .tuple (items.map (data cells fuel))
    | dict entries => .dict (entries.map fun e => (data cells fuel e.1, data cells fuel e.2))
    | range a b c => .other "range" (rangeWording a b c) 0
    | imaginary => .other "complex" "" 0
    | base t => .other "type" (classText t.word) 0
    | failure k => .other "type" (classText k.word) 0
    | error k args =>
      let parts := Data.literals (args.map (data cells fuel))
      .other k.word (k.word ++ "(" ++ .join ", " parts ++ ")") 0
    | builtin f => .other "builtin_function_or_method" ("<built-in function " ++ f.word ++ ">") 0
    | library f => .other "function" ("<function " ++ f.word ++ ">") 0
    | method _ name => .other "builtin_function_or_method" ("<built-in method " ++ name ++ ">") 0
    | function f => .other "function" ("<function " ++ f.name ++ ">") f.identity
    | delayed _ _ _ => .other "function" "<function <lambda>>" 0
    | stepMaker => .other "function" "<function step>" 0
    | decorator _ => .other "function" "<function decorator>" 0
    | module name => .other "module" ("<module " ++ tick name ++ ">") 0

def kindName (v : Value) : String :=
  (v.data #[] 1).kindName

end Value

def dataDepth : Nat := 1000

def spelled (v : Value) : Calc Data := do
  return v.data (← get).cells dataDepth

def newList (items : List Value) : Calc Value := do
  let cell := (← get).cells.size
  modify fun m => { m with cells := m.cells.push items }
  return .list cell

def cellItems (cell : Nat) : Calc (List Value) := do
  return ((← get).cells[cell]?).getD []

mutual
def valueOf : Data → Calc Value
  | .none => pure .none
  | .bool b => pure (.bool b)
  | .int n => pure (.int n)
  | .float x => pure (.float x)
  | .str s => pure (.str s)
  | .symbol s => pure (.symbol s)
  | .list items => do newList (← valuesOf items)
  | .tuple items => return .tuple (← valuesOf items)
  | .dict entries => return .dict (← valuesOfEntries entries)
  | .other _ _ _ => pure .none
def valuesOf : List Data → Calc (List Value)
  | [] => pure []
  | v :: rest => return (← valueOf v) :: (← valuesOf rest)
def valuesOfEntries : List (Data × Data) → Calc (List (Value × Value))
  | [] => pure []
  | (k, v) :: rest => return (← valueOf k, ← valueOf v) :: (← valuesOfEntries rest)
end

def fresh (d : Data) : Eval Value :=
  Trace.onRest (valueOf d)

def faultOf (k : ErrorKind) (args : List Value) : Calc Fault := do
  match args with
  | [] => return ⟨k, ""⟩
  | [v] => do
    let d ← spelled v
    return ⟨k, if k = .key then d.literal else d.display⟩
  | vs => return ⟨k, (← spelled (.tuple vs)).literal⟩

def ofExcept {α σ : Type} : Except Fault α → EStateM Fault σ α
  | .ok v => pure v
  | .error e => throw e

/-! ## Arguments

Names are matched first, then arguments by position that no parameter is left for are refused, then
parameters that got nothing.
-/

/-- The parameters of a function: those that must be given, those that need not, and whether further
names are taken. -/
structure Signature where
  name : String
  required : List String
  optional : List String := []
  takesMore : Bool := false
deriving Repr

namespace Signature

def params (s : Signature) : List String :=
  s.required ++ s.optional

def nameList : List String → String
  | [] => ""
  | [a] => tick a
  | [a, b] => tick a ++ " and " ++ tick b
  | names => String.intercalate ", " (names.dropLast.map tick) ++ ", and " ++
    tick (names.getLast?.getD "")

def plural (n : Nat) : String :=
  if n == 1 then "" else "s"

def tooMany (s : Signature) (given : Nat) : Fault :=
  let most := s.params.length
  let least := s.required.length
  let takes :=
    if s.optional.isEmpty then Text.ofNat most ++ " positional argument" ++ plural most
    else "from " ++ Text.ofNat least ++ " to " ++ Text.ofNat most ++ " positional arguments"
  .ofType (s.name ++ "() takes " ++ takes ++ " but " ++ Text.ofNat given ++
    (if given == 1 then " was" else " were") ++ " given")

def missing (s : Signature) (names : List String) : Fault :=
  .ofType (s.name ++ "() missing " ++ Text.ofNat names.length ++ " required positional argument" ++
    plural names.length ++ ": " ++ nameList names)

/-- Adds named arguments to those bound so far, and gives back names of no parameter. -/
def bindNamed (s : Signature) : Entries Value → Entries Value → Entries Value →
    Except Fault (Entries Value × Entries Value)
  | bound, further, [] => .ok (bound, further)
  | bound, further, (n, v) :: rest =>
    if s.params.contains n then
      if bound.has n then
        .error (.ofType (s.name ++ "() got multiple values for argument " ++ tick n))
      else bindNamed s (bound ++ [(n, v)]) further rest
    else if s.takesMore then bindNamed s bound (further ++ [(n, v)]) rest
    else .error (.ofType (s.name ++ "() got an unexpected keyword argument " ++ tick n))

/-- Gives parameters their arguments. The second result holds names of no parameter. -/
def bind (s : Signature) (args : List Value) (named : Entries Value) :
    Except Fault (Entries Value × Entries Value) := do
  let (bound, further) ← bindNamed s (s.params.zip args) [] named
  if s.params.length < args.length then throw (s.tooMany args.length)
  match s.required.filter fun n => !bound.has n with
  | [] => return (bound, further)
  | names => throw (s.missing names)

end Signature

end Appwright.Target
