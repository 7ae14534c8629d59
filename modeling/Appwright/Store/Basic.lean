import Appwright.Json.Number
import Appwright.Running
import Appwright.Spec.Basic
import Appwright.Store.Value

/-!
# The store

A store is a list of tables. A table has columns and rows; a row has an id, which is never used
again in its table, and a cell for each column. Names of tables and columns are the same up to the
case of ASCII letters.

An operation that fails leaves the store as it is at that moment: what came before the failure
stays.
-/

namespace Appwright

/-! ## Words of the statements

Names of tables and columns stand bare in the statements that declare them, so a word with a
meaning of its own there cannot be a name.
-/

namespace Store

/-- The words that name neither a table nor a column. -/
def keywords : List String := [
  "add", "all", "alter", "and", "as", "autoincrement", "between", "case", "collate", "commit",
  "create", "default", "deferrable", "delete", "distinct", "drop", "else", "escape", "except",
  "exists", "from", "group", "having", "in", "index", "insert", "intersect", "into", "is",
  "isnull", "join", "limit", "not", "nothing", "notnull", "null", "on", "or", "order",
  "references", "returning", "select", "set", "table", "then", "to", "transaction", "union",
  "update", "using", "values", "when", "where"]

def ruleWords : List String := ["check", "foreign", "primary", "unique"]

def namesRule (word : String) : Bool :=
  word.toLower == "constraint"

def isKeyword (word : String) : Bool :=
  keywords.contains word.toLower

def opensRule (word : String) : Bool :=
  ruleWords.contains word.toLower

def isKeywordOfTable (word : String) : Bool :=
  isKeyword word || opensRule word || namesRule word

/-- Whether a word can name a table in the statement that declares it but not in the stored form
of that statement, which has no condition before the name. -/
def isLostInSchema (word : String) : Bool :=
  word.toLower == "if"

end Store

/-! ## Tables -/

namespace Store

structure Column where
  name : String
  affinity : Affinity
deriving DecidableEq, Repr

structure Row where
  id : Int
  cells : List Value
deriving Repr, Inhabited

/-- A table. Its rows stand in the order of their ids. -/
structure Table where
  name : String
  columns : List Column
  rows : List Row := []
  lastId : Int := 0
deriving Repr, Inhabited

end Store

structure Store where
  tables : List Store.Table := []
deriving Repr, Inhabited

namespace Store

inductive Error where
  | badIdentifier (part name : String)
  | unknownType (name : String)
  | duplicateColumn (name : String)
  | reservedName (name : String)
  | unexpected (word : String)
  | lostInSchema (table : String)
  | noTable (name : String)
  | noColumn (name : String)
  | noColumnIn (table name : String)
  | noFields
  | number (cause : Json.NumberError)
  | unbindable (position : Nat) (kind : String)
  | tooLarge
  | patternTooLong
  | takenId (table : String)
  | notWholeId
  | full
deriving DecidableEq, Repr

def Error.message : Error → String
  | badIdentifier part name => "Invalid " ++ part ++ " identifier: " ++ Text.quoted name
  | unknownType name => Text.quoted name
  | duplicateColumn name => "duplicate column name: " ++ name
  | reservedName name => "object name reserved for internal use: " ++ name
  | unexpected word => "near \"" ++ word ++ "\": syntax error"
  | lostInSchema table => "malformed database schema (" ++ table ++ ") - near \"(\": syntax error"
  | noTable name => "no such table: " ++ name
  | noColumn name => "no such column: " ++ name
  | noColumnIn table name => "table " ++ table ++ " has no column named " ++ name
  | noFields => "No fields provided"
  | number cause => cause.message
  | unbindable position kind =>
    "Error binding parameter " ++ Text.ofNat position ++ ": type '" ++ kind ++ "' is not supported"
  | tooLarge => "Python int too large to convert to SQLite INTEGER"
  | patternTooLong => "LIKE or GLOB pattern too complex"
  | takenId table => "UNIQUE constraint failed: " ++ table ++ ".id"
  | notWholeId => "datatype mismatch"
  | full => "database or disk is full"

abbrev Action := EStateM Error Store

/-- The name that stands for an identifier in a statement: a line feed at its end is a blank. -/
def nameOf (identifier : String) : String :=
  Text.trimBack identifier

def sameName (a b : String) : Bool :=
  a.toList.map Char.toLower == b.toList.map Char.toLower

def idColumn : String := "id"

def affinityOf : Spec.FieldType → Except Error Affinity
  | .text | .datetime | .json => .ok .text
  | .int | .bool | .ref _ => .ok .integer
  | .float => .ok .real
  | .other name => .error (.unknownType name)

def table? (name : String) (s : Store) : Option Table :=
  s.tables.find? fun t => sameName t.name (nameOf name)

def setTable (t : Table) (s : Store) : Store where
  tables := s.tables.map fun u => if sameName u.name t.name then t else u

namespace Table

def column? (name : String) (t : Table) : Option Nat :=
  t.columns.findIdx? fun c => sameName c.name (nameOf name)

def hasColumn (name : String) (t : Table) : Bool :=
  sameName idColumn (nameOf name) || (t.column? name).isSome

def object (t : Table) (r : Row) : Json.Members :=
  (idColumn, .int r.id) :: (t.columns.zip r.cells).map fun e => (e.1.name, e.2.toJson)

def row? (id : Int) (t : Table) : Option Row :=
  t.rows.find? fun r => r.id == id

def topId (t : Table) : Int :=
  t.rows.foldl (fun n r => max n r.id) t.lastId

end Table

/-! ## Tables from models -/

def checkIdentifier (part name : String) : Except Error Unit :=
  if Text.isIdentLine name then .ok () else .error (.badIdentifier part name)

def columnsOf (m : Spec.Model) : Except Error (List Column) :=
  m.fields.mapM fun f => do
    checkIdentifier ("field in " ++ m.name) f.1
    let affinity ← affinityOf f.2
    return { name := nameOf f.1, affinity }

def addColumn (c : Column) (t : Table) : Except Error Table :=
  if t.hasColumn c.name then .error (.duplicateColumn c.name)
  else .ok {
    t with
    columns := t.columns ++ [c]
    rows := t.rows.map fun r => { r with cells := r.cells ++ [.null] } }

/-- What is wrong with the words of a column where it is declared. After a named rule only rules
can stand. -/
def fault? (ruled : Bool) (c : Column) : Option Error :=
  if isKeyword c.name then some (.unexpected c.name)
  else if opensRule c.name then some (.unexpected c.affinity.name)
  else if ruled && !namesRule c.name then some (.unexpected c.name)
  else none

/-- Reads a list of columns, in order, and adds each to a table with a given operation. A word that
names a rule adds no column. -/
def declare (add : Column → Table → Except Error Table) (t : Table) (ruled : Bool) :
    List Column → Except Error Table
  | [] => .ok t
  | c :: cs =>
    match fault? ruled c with
    | some e => .error e
    | none =>
      if namesRule c.name then declare add t true cs
      else do
        let t ← add c t
        declare add t ruled cs

def newTable (name : String) (columns : List Column) : Except Error Table := do
  if isKeywordOfTable name then throw (.unexpected name)
  if Text.startsWith name.toLower "sqlite_" then throw (.reservedName name)
  let t ← declare addColumn { name, columns := [] } false columns
  if isLostInSchema name then throw (.lostInSchema name)
  return t

abbrev attempt {α : Type} (result : Except Error α) : Action α :=
  Appwright.attempt id result

/-- Adds the columns that a table lacks, one after another. Whether a column is there is asked of
the names as they are written, letter case included. -/
def addMissing (table : String) (existing : List String) :
    List (String × Column) → Action Unit
  | [] => pure ()
  | (field, c) :: rest => do
    unless existing.contains field do
      match (← get).table? table with
      | none => throw (.noTable table)
      | some t =>
        if namesRule c.name then throw (.unexpected c.name)
        let t ← attempt (addColumn c t)
        modify (setTable t)
    addMissing table existing rest

def ensureTable (m : Spec.Model) : Action Unit := do
  attempt (checkIdentifier "model" m.name)
  let columns ← attempt (columnsOf m)
  let s ← get
  match s.table? m.name with
  | some t =>
    -- The statement is read as a whole before it is found that the table is there.
    let _ ← attempt (declare (fun _ t => .ok t) t false columns)
  | none =>
    let t ← attempt (newTable (nameOf m.name) columns)
    set { s with tables := s.tables ++ [t] }
  match (← get).table? m.name with
  | none => throw (.noTable (nameOf m.name))
  | some t =>
    let existing := idColumn :: t.columns.map Column.name
    addMissing m.name existing (m.fields.names.zip columns)

def ensure : List Spec.Model → Action Unit
  | [] => pure ()
  | m :: ms => do
    ensureTable m
    ensure ms

end Store

end Appwright
