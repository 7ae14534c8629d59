import Appwright.Json.Basic
import Appwright.Sexpr.Basic

/-!
# Program documents

A program is exchanged as a document: a JSON value in which, where it was read from program text,
the metadata may also hold symbols.
-/

namespace Appwright.Program

inductive Node where
  | null
  | bool (b : Bool)
  | int (n : Int)
  | float (x : Float)
  | str (s : String)
  | symbol (name : String)
  | list (items : List Node)
  | obj (members : List (String × Node))
deriving Repr, Inhabited

namespace Node

mutual
def ofJson : Json → Node
  | .null => .null
  | .bool b => .bool b
  | .int n => .int n
  | .float x => .float x
  | .str s => .str s
  | .arr items => .list (ofItems items)
  | .obj members => .obj (ofMembers members)
def ofItems : List Json → List Node
  | [] => []
  | v :: rest => ofJson v :: ofItems rest
def ofMembers : List (String × Json) → List (String × Node)
  | [] => []
  | (k, v) :: rest => (k, ofJson v) :: ofMembers rest
end

def ofLeaf : Sexpr.Leaf → Node
  | .int n => .int n
  | .float x => .float x
  | .bool b => .bool b
  | .null => .null
  | .str s => .str s
  | .symbol name => .symbol name

mutual
def ofForm : Form → Node
  | .leaf v => ofLeaf v
  | .list items => .list (ofForms items)
def ofForms : List Form → List Node
  | [] => []
  | f :: fs => ofForm f :: ofForms fs
end

def kindName : Node → String
  | null => "NoneType"
  | bool _ => "bool"
  | int _ => "int"
  | float _ => "float"
  | str _ => "str"
  | symbol _ => "Symbol"
  | list _ => "list"
  | obj _ => "dict"

def truthy : Node → Bool
  | null => false
  | bool b => b
  | int n => n != 0
  | float x => x != 0.0
  | str s => !s.isEmpty
  | symbol _ => true
  | list items => !items.isEmpty
  | obj members => !members.isEmpty

mutual
def literal : Node → String
  | null => "None"
  | bool true => "True"
  | bool false => "False"
  | int n => Text.ofInt n
  | float x => Decimal.text x
  | str s => Text.quoted s
  | symbol name => "Symbol(name=" ++ Text.quoted name ++ ")"
  | list items => "[" ++ String.intercalate ", " (literalItems items) ++ "]"
  | obj members => "\x7b" ++ String.intercalate ", " (literalMembers members) ++ "\x7d"
def literalItems : List Node → List String
  | [] => []
  | v :: rest => literal v :: literalItems rest
def literalMembers : List (String × Node) → List String
  | [] => []
  | (k, v) :: rest => (Text.quoted k ++ ": " ++ literal v) :: literalMembers rest
end

def display : Node → String
  | str s => s
  | v => literal v

def text? : Node → Option String
  | str s => some s
  | _ => none

def members? : Node → Option (Entries Node)
  | obj members => some members
  | _ => none

def isText : Node → Bool
  | str _ => true
  | _ => false

def isList : Node → Bool
  | list _ => true
  | _ => false

/-- An object that has certain members. -/
def holds (names : List String) : Node → Bool
  | obj members => names.all (Entries.has · members)
  | _ => false

def isWhole : Node → Bool
  | int _ => true
  | bool _ => true
  | _ => false

end Node

end Appwright.Program
