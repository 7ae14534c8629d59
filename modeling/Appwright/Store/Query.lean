import Appwright.Store.Row

/-!
# Queries

A query selects the rows that satisfy all of some clauses, orders them by a column and cuts out a
window. The text of a query's statement holds names only; every given value is a parameter.
-/

namespace Appwright.Store

/-! ## Text patterns

In a pattern `%` stands for any text and `_` for any one character.
-/

def sameLetter (a b : Char) : Bool :=
  a.toLower == b.toLower

def matchesPattern : List Char → List Char → Bool
  | [], text => text.isEmpty
  | '%' :: rest, [] => matchesPattern rest []
  | '%' :: rest, c :: cs => matchesPattern rest (c :: cs) || matchesPattern ('%' :: rest) cs
  | '_' :: _, [] => false
  | '_' :: rest, _ :: cs => matchesPattern rest cs
  | _ :: _, [] => false
  | p :: rest, c :: cs => sameLetter p c && matchesPattern rest cs
termination_by pattern text => pattern.length + text.length

def like (pattern text : String) : Bool :=
  let upToNul (s : String) : List Char := s.toList.takeWhile (· != '\x00')
  matchesPattern (upToNul pattern) (upToNul text)

/-! ## Queries -/

inductive Clause where
  | anyLike (fields : List String) (pattern : String)
  | like (field pattern : String)
  | equals (field : String) (given : Json)
deriving Repr

def Clause.statement : Clause → String
  | anyLike fields _ => "(" ++ " OR ".intercalate (fields.map fun f => f ++ " LIKE ?") ++ ")"
  | like field _ => field ++ " LIKE ?"
  | equals field _ => field ++ " = ?"

def Clause.parameters : Clause → List Json
  | anyLike fields pattern => fields.map fun _ => .str pattern
  | like _ pattern => [.str pattern]
  | equals _ given => [given]

structure Order where
  field : String := idColumn
  descending : Bool := true
  small : Bool := false
deriving DecidableEq, Repr

def Order.direction (o : Order) : String :=
  match o.descending, o.small with
  | true, false => "DESC"
  | false, false => "ASC"
  | true, true => "desc"
  | false, true => "asc"

def Order.statement (o : Order) : String :=
  o.field ++ " " ++ o.direction

/-- The order that a text of one or two words states: a field, and a direction that is
ascending unless it says otherwise. -/
def Order.ofText? (s : String) : Option Order :=
  match Text.words s with
  | [field] => some { field, descending := false }
  | [field, direction] => some { field, descending := Text.upper direction == "DESC" }
  | _ => none

def whereStatement (clauses : List Clause) : String :=
  if clauses.isEmpty then "" else " WHERE " ++ " AND ".intercalate (clauses.map Clause.statement)

/-- A statement: its text, and the values for the question marks in it. -/
structure Statement where
  text : String
  parameters : List Json
deriving Repr

def listStatement (m : Spec.Model) (clauses : List Clause) (order : Order) (limit offset : Int) :
    Statement where
  text := "SELECT * FROM " ++ m.name ++ whereStatement clauses ++ " ORDER BY " ++ order.statement ++
    " LIMIT ? OFFSET ?"
  parameters := clauses.flatMap Clause.parameters ++ [.int limit, .int offset]

def countStatement (m : Spec.Model) (clauses : List Clause) : Statement where
  text := "SELECT COUNT(*) as count FROM " ++ m.name ++ whereStatement clauses
  parameters := clauses.flatMap Clause.parameters

def cellOf (t : Table) (r : Row) (field : String) : Value × Affinity :=
  match t.column? field with
  | some i => (r.cells.getD i .null, (t.columns[i]?.map Column.affinity).getD .text)
  | none => (.int r.id, .integer)

def maxPattern : Nat := 50000

def likeCell (pattern : String) (v : Value) : Except Error Bool :=
  if pattern.utf8ByteSize > maxPattern then .error .patternTooLong
  else .ok (match v.text? with
    | some s => like pattern s
    | none => false)

/-- Whether one of some fields of a row is like a pattern; the first that is decides. -/
def likeSome (t : Table) (r : Row) (pattern : String) : List String → Except Error Bool
  | [] => .ok false
  | f :: fs =>
    match likeCell pattern (cellOf t r f).1 with
    | .ok false => likeSome t r pattern fs
    | other => other

def Clause.holds (t : Table) (r : Row) : Clause → Except Error Bool
  | anyLike fields pattern => likeSome t r pattern fields
  | like field pattern => likeCell pattern (cellOf t r field).1
  | equals field given => do
    let v ← bind 1 given
    let (cell, affinity) := cellOf t r field
    return cell.equals affinity v

/-- Whether a row satisfies all of some clauses; the first that fails decides. -/
def satisfies (t : Table) (r : Row) : List Clause → Except Error Bool
  | [] => .ok true
  | c :: cs =>
    match c.holds t r with
    | .ok true => satisfies t r cs
    | other => other

def clauseFields (clauses : List Clause) : List String :=
  clauses.flatMap fun
    | .anyLike fields _ => fields
    | .like field _ => [field]
    | .equals field _ => [field]

def checkColumns (t : Table) (fields : List String) : Except Error Unit :=
  match fields.find? fun f => !t.hasColumn f with
  | some f => .error (.noColumn (nameOf f))
  | none => .ok ()

def select (t : Table) (clauses : List Clause) : Except Error (List Row) :=
  t.rows.filterM fun r => satisfies t r clauses

/-- Orders rows by a column; rows with equal values keep the order of their ids. -/
def sortRows (t : Table) (order : Order) (rows : List Row) : List Row :=
  rows.mergeSort fun a b =>
    let x := (cellOf t a order.field).1
    let y := (cellOf t b order.field).1
    if order.descending then (x.order y).isGE else (x.order y).isLE

def window {α : Type} (limit offset : Int) (xs : List α) : List α :=
  let rest := xs.drop offset.toNat
  if limit < 0 then rest else rest.take limit.toNat

def list (m : Spec.Model) (clauses : List Clause) (order : Order) (limit offset : Int) :
    Action (List Json.Members) := do
  let t ← tableOf m
  attempt (checkColumns t (clauseFields clauses ++ [order.field]))
  let _ ← attempt (bindAll 1 (listStatement m clauses order limit offset).parameters)
  let rows ← attempt (select t clauses)
  return (window limit offset (sortRows t order rows)).map t.object

def count (m : Spec.Model) (clauses : List Clause) : Action Nat := do
  let t ← tableOf m
  attempt (checkColumns t (clauseFields clauses))
  let _ ← attempt (bindAll 1 (countStatement m clauses).parameters)
  let rows ← attempt (select t clauses)
  return rows.length

end Appwright.Store
