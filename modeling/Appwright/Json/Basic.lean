import Appwright.Decimal.Binary
import Appwright.Entries

/-!
# JSON values

The values that requests, specifications and rows are made of. Whole numbers and floats are kept
apart, and the members of an object stay in the order in which they were written.
-/

namespace Appwright

inductive Json where
  | null
  | bool (b : Bool)
  | int (n : Int)
  | float (x : Float)
  | str (s : String)
  | arr (items : List Json)
  | obj (members : List (String × Json))
deriving Inhabited, Repr

namespace Json

abbrev Members := Entries Json

/-- The word for the kind of a value in messages about wrong kinds. -/
def kindName : Json → String
  | null => "NoneType"
  | bool _ => "bool"
  | int _ => "int"
  | float _ => "float"
  | str _ => "str"
  | arr _ => "list"
  | obj _ => "dict"

/-- Whether a value counts as true: everything but null, false, zero and what is empty. -/
def truthy : Json → Bool
  | null => false
  | bool b => b
  | int n => n != 0
  | float x => x != 0.0
  | str s => !s.isEmpty
  | arr items => !items.isEmpty
  | obj members => !members.isEmpty

def isNull : Json → Bool
  | null => true
  | _ => false

def text? : Json → Option String
  | str s => some s
  | _ => none

def items? : Json → Option (List Json)
  | arr items => some items
  | _ => none

def members? : Json → Option Members
  | obj members => some members
  | _ => none

/-- A member of an object; nothing where the member is missing or the value is no object. -/
def get? (name : String) : Json → Option Json
  | obj members => Entries.get? name members
  | _ => none

def getD (name : String) (v : Json) : Json :=
  (v.get? name).getD .null

/-- A whole number; the two truth values count as one and zero. -/
def whole? : Json → Option Int
  | int n => some n
  | bool b => some (if b then 1 else 0)
  | _ => none

def texts? : Json → Option (List String)
  | arr items => items.mapM text?
  | _ => none

def ofTexts (texts : List String) : Json :=
  .arr (texts.map .str)

end Json

end Appwright

namespace Appwright.Json

/-! ## Equality

Numbers are equal when their exact values are, whatever their kind, and the truth values count as
one and zero. Objects are equal when they have the same names with equal values, in any order.
-/

def sameLeaf : Json → Json → Bool
  | null, null => true
  | str s, str t => s == t
  | float x, float y => x == y
  | float x, v => match v.whole? with
    | some n => Decimal.equalsInt n x
    | none => false
  | v, float y => match v.whole? with
    | some n => Decimal.equalsInt n y
    | none => false
  | v, w => match v.whole?, w.whole? with
    | some m, some n => m == n
    | _, _ => false

mutual
def same : Json → Json → Bool
  | arr xs, arr ys => sameItems xs ys
  | obj xs, obj ys => xs.length == ys.length && sameMembers xs ys
  | arr _, _ => false
  | obj _, _ => false
  | null, w => sameLeaf null w
  | bool b, w => sameLeaf (bool b) w
  | int n, w => sameLeaf (int n) w
  | float x, w => sameLeaf (float x) w
  | str s, w => sameLeaf (str s) w
def sameItems : List Json → List Json → Bool
  | [], [] => true
  | x :: xs, y :: ys => same x y && sameItems xs ys
  | _, _ => false
def sameMembers : List (String × Json) → List (String × Json) → Bool
  | [], _ => true
  | (k, v) :: rest, ys =>
    (match Entries.get? k ys with
      | some w => same v w
      | none => false) && sameMembers rest ys
end

def isAmong (v : Json) (items : List Json) : Bool :=
  items.any fun item => same item v

/-! ## Merging

Where both objects have an object under a name the two are merged, and everywhere else the upper one
wins.
-/

mutual
def merge : Json → Json → Json
  | .obj lower, .obj upper => .obj (mergeMembers lower upper)
  | _, upper => upper
def mergeMembers : Members → List (String × Json) → Members
  | lower, [] => lower
  | lower, (name, v) :: rest =>
    let merged := match Entries.get? name lower with
      | some w => merge w v
      | none => v
    mergeMembers (Entries.put name merged lower) rest
end

end Appwright.Json
