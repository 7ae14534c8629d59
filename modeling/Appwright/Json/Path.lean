import Appwright.Decimal.Reading
import Appwright.Json.Basic

/-!
# Dotted paths

A path names a value inside nested objects and arrays: names and positions between dots. Empty
segments do not count, and a step that cannot be taken leads to null.
-/

namespace Appwright.Json

def pathSegments (path : String) : List String :=
  (Text.splitChar '.' (Text.trim path)).filter fun s => !s.isEmpty

/-- One step of a path. A segment of digits is a position in an array; digits that write no number
are an error there. -/
def step (v : Json) (segment : String) : Except Decimal.IntError Json :=
  match v with
  | .obj members => .ok ((Entries.get? segment members).getD .null)
  | .arr items =>
    if !segment.isEmpty && segment.toList.all Text.isDigit then
      match Decimal.readInt segment with
      | .ok n => .ok (items.getD n.toNat .null)
      | .error e => .error e
    else .ok .null
  | _ => .ok .null

def follow (v : Json) : List String → Except Decimal.IntError Json
  | [] => .ok v
  | segment :: rest =>
    match step v segment with
    | .ok w => follow w rest
    | .error e => .error e

/-- The value at a path: its first segment is looked up in the context. -/
def lookup (path : String) (context : Members) : Except Decimal.IntError Json :=
  match pathSegments path with
  | [] => .ok .null
  | root :: rest => follow ((Entries.get? root context).getD .null) rest

end Appwright.Json
