import Appwright.Json.Writer
import Appwright.Program.Node
import Appwright.Target.Fault

/-!
# Data of running programs

The values of a running program at one moment, with the items of every list spelled out: how they
compare, how they are written, and which JSON they are.
-/

namespace Appwright.Target

open Decimal

/-- A value with everything in it. What is neither number, text nor collection is known by its kind,
its wording and a number of its own. -/
inductive Data where
  | none
  | bool (b : Bool)
  | int (n : Int)
  | float (x : Float)
  | str (s : String)
  | symbol (name : String)
  | list (items : List Data)
  | tuple (items : List Data)
  | dict (entries : List (Data × Data))
  | other (kind : String) (wording : Wording) (identity : Nat)
deriving Repr, Inhabited

namespace Data

def kindName : Data → String
  | none => "NoneType"
  | bool _ => "bool"
  | int _ => "int"
  | float _ => "float"
  | str _ => "str"
  | symbol _ => "Symbol"
  | list _ => "list"
  | tuple _ => "tuple"
  | dict _ => "dict"
  | other kind _ _ => kind

def truthy : Data → Bool
  | none => false
  | bool b => b
  | int n => n != 0
  | float x => x != 0.0
  | str s => !s.isEmpty
  | list items | tuple items => !items.isEmpty
  | dict entries => !entries.isEmpty
  | other kind wording _ => !(kind == "range" && wording.text == "range(0, 0)")
  | symbol _ => true

def leaf? : Data → Option Json
  | none => some .null
  | bool b => some (.bool b)
  | int n => some (.int n)
  | float x => some (.float x)
  | str s => some (.str s)
  | _ => .none

def sameLeaf : Data → Data → Bool
  | symbol s, symbol t => s == t
  | other k v i, other l w j => k == l && v == w && i == j
  | x, y => match x.leaf?, y.leaf? with
    | some v, some w => Json.sameLeaf v w
    | _, _ => false

mutual
def same : Data → Data → Bool
  | list xs, list ys => sameItems xs ys
  | tuple xs, tuple ys => sameItems xs ys
  | dict xs, dict ys => xs.length == ys.length && sameEntries xs ys
  | list _, _ | tuple _, _ | dict _, _ => false
  | x, y => sameLeaf x y
def sameItems : List Data → List Data → Bool
  | [], [] => true
  | x :: xs, y :: ys => same x y && sameItems xs ys
  | _, _ => false
def sameEntries : List (Data × Data) → List (Data × Data) → Bool
  | [], _ => true
  | (k, v) :: rest, ys =>
    ys.any (fun e => same k e.1 && same v e.2) && sameEntries rest ys
end

/-- The order of two numbers, if both are ones; nothing where a NaN is among them. -/
def compareNumbers? : Data → Data → Option (Option Ordering)
  | float x, float y =>
    some (if x < y then some .lt else if y < x then some .gt else if x == y then some .eq else .none)
  | float x, y => (y.leaf?.bind Json.whole?).map fun n =>
    (compareInt? n x).map Ordering.swap
  | x, float y => (x.leaf?.bind Json.whole?).map fun n => compareInt? n y
  | x, y => do
    let m ← x.leaf?.bind Json.whole?
    let n ← y.leaf?.bind Json.whole?
    return some (Ord.compare m n)

inductive OrderSign where
  | lt | gt | le | ge
deriving DecidableEq, Repr

def OrderSign.text : OrderSign → String
  | .lt => "<"
  | .gt => ">"
  | .le => "<="
  | .ge => ">="

def OrderSign.holds (sign : OrderSign) (o : Ordering) : Bool :=
  match sign with
  | .lt => o == .lt
  | .gt => o == .gt
  | .le => o != .gt
  | .ge => o != .lt

def orderLeaf (sign : OrderSign) (x y : Data) : Except Fault Bool :=
  match x, y with
  | str s, str t => .ok (sign.holds (Text.compare s t))
  | x, y =>
    match compareNumbers? x y with
    | some o => .ok ((o.map sign.holds).getD false)
    | .none => .error (.ofType (tick sign.text ++ " not supported between instances of " ++
        tick x.kindName ++ " and " ++ tick y.kindName))

mutual
/-- Comparison of values: sequences by their first difference. -/
def order (sign : OrderSign) : Data → Data → Except Fault Bool
  | list xs, list ys => orderItems sign xs ys
  | tuple xs, tuple ys => orderItems sign xs ys
  | x, y => orderLeaf sign x y
def orderItems (sign : OrderSign) : List Data → List Data → Except Fault Bool
  | [], [] => .ok (sign.holds .eq)
  | [], _ :: _ => .ok (sign.holds .lt)
  | _ :: _, [] => .ok (sign.holds .gt)
  | x :: xs, y :: ys => if same x y then orderItems sign xs ys else order sign x y
end

mutual
def literal : Data → Wording
  | none => "None"
  | bool b => if b then "True" else "False"
  | int n => .ofInt n
  | float x => text x
  | str s => Text.quoted s
  | symbol s => "Symbol(name=" ++ Text.quoted s ++ ")"
  | list items => "[" ++ .join ", " (literals items) ++ "]"
  | tuple items => match literals items with
    | [one] => "(" ++ one ++ ",)"
    | parts => "(" ++ .join ", " parts ++ ")"
  | dict entries => "\x7b" ++ .join ", " (entryLiterals entries) ++ "\x7d"
  | other _ wording _ => wording
def literals : List Data → List Wording
  | [] => []
  | v :: rest => literal v :: literals rest
def entryLiterals : List (Data × Data) → List Wording
  | [] => []
  | (k, v) :: rest => (literal k ++ ": " ++ literal v) :: entryLiterals rest
end

def display : Data → Wording
  | str s => s
  | v => v.literal

mutual
def ofNode : Program.Node → Data
  | .null => none
  | .bool b => bool b
  | .int n => int n
  | .float x => float x
  | .str s => str s
  | .symbol s => symbol s
  | .list items => list (ofNodes items)
  | .obj members => dict (ofMembers members)
def ofNodes : List Program.Node → List Data
  | [] => []
  | v :: rest => ofNode v :: ofNodes rest
def ofMembers : List (String × Program.Node) → List (Data × Data)
  | [] => []
  | (k, v) :: rest => (str k, ofNode v) :: ofMembers rest
end

def ofJson (v : Json) : Data :=
  ofNode (.ofJson v)

/-- The kind of the first part of a value that cannot be a key. -/
def unhashable? : Data → Option String
  | list _ => some "list"
  | dict _ => some "dict"
  | tuple items => among items
  | _ => .none
where
  among : List Data → Option String
    | [] => .none
    | v :: rest => (unhashable? v).or (among rest)

def checkKey (v : Data) : Except Fault Unit :=
  match v.unhashable? with
  | .none => .ok ()
  | some kind => .error (.ofType ("unhashable type: " ++ tick kind))

/-! ## Data as JSON -/

def keyWording : Data → Except Fault Wording
  | str s => .ok s
  | none => .ok "null"
  | bool b => .ok (if b then "true" else "false")
  | int n => .ok (.ofInt n)
  | float x => .ok (Json.floatText x)
  | v => .error (.ofType ("keys must be str, int, float, bool or None, not " ++ v.kindName))

structure Dump where
  sortKeys : Bool := false
  skipKeys : Bool := false
  allowNan : Bool := true
  anyLength : Bool := false
deriving Repr

def insertByKey {α : Type} (e : Data × α) : List (Data × α) → Except Fault (List (Data × α))
  | [] => .ok [e]
  | f :: rest => do
    if ← order .lt e.1 f.1 then return e :: f :: rest
    return f :: (← insertByKey e rest)

def sortByKey {α : Type} (entries : List (Data × α)) : Except Fault (List (Data × α)) :=
  entries.foldlM (fun sorted e => insertByKey e sorted) []

mutual
/-- The JSON of a value: tuples are lists, and keys that are no texts are written as one. -/
def toJson (how : Dump) : Data → Except Fault Json
  | none => .ok .null
  | bool b => .ok (.bool b)
  | int n =>
    if how.anyLength || hasText n then .ok (.int n)
    else .error (.ofValue noText)
  | float x =>
    if how.allowNan || isFinite x then .ok (.float x)
    else .error (.ofValue "Out of range float values are not JSON compliant")
  | str s => .ok (.str s)
  | list items | tuple items => return .arr (← toJsons how items)
  | dict entries => do
    let converted := entryJsons how entries
    let sorted ← if how.sortKeys then sortByKey converted else .ok converted
    let kept :=
      if how.skipKeys then sorted.filter fun e => (keyWording e.1).toOption.isSome else sorted
    return .obj (← kept.mapM fun e => return (← (← keyWording e.1).tell, ← e.2))
  | symbol _ => .error (.ofType "Object of type Symbol is not JSON serializable")
  | other kind _ _ =>
    .error (.ofType ("Object of type " ++ kind ++ " is not JSON serializable"))
def toJsons (how : Dump) : List Data → Except Fault (List Json)
  | [] => .ok []
  | v :: rest => return (← toJson how v) :: (← toJsons how rest)
def entryJsons (how : Dump) : List (Data × Data) → List (Data × Except Fault Json)
  | [] => []
  | (k, v) :: rest => (k, toJson how v) :: entryJsons how rest
end

end Data

end Appwright.Target
