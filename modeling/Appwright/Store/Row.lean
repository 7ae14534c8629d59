import Appwright.Json.Reader
import Appwright.Json.Writer
import Appwright.Store.Basic
import Appwright.Text.Casing

/-!
# Rows of a model

A field's value is first made fit for its type (`coerce`), then bound to a statement (`bind`), and
when it is read, made JSON again (`normalize`).
-/

namespace Appwright.Store

open Spec Json

def isYes (s : String) : Bool :=
  ["1", "true", "yes", "on"].contains (Text.lower s)

/-- A value made fit for a field's type. Numbers must be readable, truth values become one or zero,
and JSON is written out unless it is a text, if its whole numbers can be written. -/
def coerce (type : FieldType) (v : Json) : Except NumberError Json :=
  match v with
  | .null => .ok .null
  | v =>
    match type with
    | .ref _ =>
      match v with
      | .str "" => .ok .null
      | v => v.toWhole.map .int
    | .json =>
      match v with
      | .str s => .ok (.str s)
      | v => if v.isWritable then .ok (.str (encode v)) else .error .noText
    | .bool =>
      let yes := match v with
        | .str s => isYes s
        | v => v.truthy
      .ok (.int (if yes then 1 else 0))
    | .int => v.toWhole.map .int
    | .float => v.toReal.map .float
    | _ => .ok v

def bind (position : Nat) : Json → Except Error Value
  | .null => .ok .null
  | .bool b => .ok (.int (if b then 1 else 0))
  | .int n => if Value.fits n then .ok (.int n) else .error .tooLarge
  | .float x => .ok (if x.isNaN then .null else .real x)
  | .str s => .ok (.text s)
  | v => .error (.unbindable position v.kindName)

def bindAll (position : Nat) : List Json → Except Error (List Value)
  | [] => .ok []
  | v :: rest => do
    let w ← bind position v
    let ws ← bindAll (position + 1) rest
    return w :: ws

def readBool (v : Json) : Json :=
  match v with
  | .null => .null
  | v =>
    match v.toWhole with
    | .ok n => .bool (n != 0)
    | .error _ => .bool v.truthy

def readJson (v : Json) : Json :=
  match v with
  | .str s =>
    match read s with
    | .ok w => w
    | .error _ => v
  | v => v

def readField (type : FieldType) (v : Json) : Json :=
  match type with
  | .bool => readBool v
  | .json => readJson v
  | _ => v

/-- A row as the model's users see it: its id and the model's fields. -/
def normalize (m : Model) (row : Members) : Members :=
  m.fields.foldl
    (fun acc f => Entries.put f.1 (readField f.2 ((row.get? f.1).getD .null)) acc)
    [(idColumn, (row.get? idColumn).getD .null)]

def tableOf (m : Model) : Action Table := do
  match (← get).table? m.name with
  | some t => return t
  | none => throw (.noTable (nameOf m.name))

def fieldValues (m : Model) (data : Members) : Except Error (List (String × Json)) :=
  (m.fields.filter fun f => data.has f.1).mapM fun f => do
    let v ← (coerce f.2 ((data.get? f.1).getD .null)).mapError Error.number
    return (f.1, v)

def get? (m : Model) (id : Int) : Action (Option Members) := do
  let t ← tableOf m
  let _ ← attempt (bind 1 (.int id))
  return (t.row? id).map t.object

/-- Puts a row in its place among rows in the order of their ids. -/
def place (row : Row) (rows : List Row) : List Row :=
  rows.takeWhile (fun r => r.id < row.id) ++ row :: rows.dropWhile (fun r => r.id < row.id)

def givenId? (values : List (String × Value)) : Option Value :=
  (values.reverse.find? fun e => sameName idColumn (nameOf e.1)).map Prod.snd

def maxId : Int := 9223372036854775807

/-- The id of a new row: one above all others, unless a value is given for it. That must be a whole
number and no row's id. -/
def newId (t : Table) (given : Option Value) : Except Error Int :=
  match (given.getD .null).convert .integer with
  | .null => if t.topId < maxId then .ok (t.topId + 1) else .error .full
  | .int id => if (t.row? id).isSome then .error (.takenId t.name) else .ok id
  | _ => .error .notWholeId

/-- The id of a row after a change: its own, unless a value is given for it. That must be a whole
number and no other row's id. -/
def changedId (t : Table) (own : Int) (given : Option Value) : Except Error Int :=
  match given with
  | none => .ok own
  | some v =>
    match v.convert .integer with
    | .int id => if id != own && (t.row? id).isSome then .error (.takenId t.name) else .ok id
    | _ => .error .notWholeId

def newCells (t : Table) (values : List (String × Value)) : List Value :=
  t.columns.map fun c =>
    match values.find? fun e => sameName c.name (nameOf e.1) with
    | some e => e.2.convert c.affinity
    | none => .null

def insert (m : Model) (data : Members) : Action Members := do
  let values ← attempt (fieldValues m data)
  if values.isEmpty then throw .noFields
  let t ← tableOf m
  match values.find? fun e => !t.hasColumn e.1 with
  | some e => throw (.noColumnIn (nameOf m.name) (nameOf e.1))
  | none => pure ()
  let bound ← attempt (bindAll 1 (values.map Prod.snd))
  let named := (values.map Prod.fst).zip bound
  let id ← attempt (newId t (givenId? named))
  let row : Row := { id, cells := newCells t named }
  modify (setTable { t with rows := place row t.rows, lastId := max t.lastId id })
  return t.object row

/-- Writes values over the cells of a row; of two for one column the last stays. -/
def overwrite (t : Table) (values : List (String × Value)) (cells : List Value) : List Value :=
  (t.columns.zip cells).map fun (c, old) =>
    match values.reverse.find? fun e => sameName c.name (nameOf e.1) with
    | some e => e.2.convert c.affinity
    | none => old

/-- Changes the row with an id, if there is one, and gives back the row that has the id then. -/
def update (m : Model) (id : Int) (data : Members) : Action (Option Members) := do
  let values ← attempt (fieldValues m data)
  if values.isEmpty then get? m id
  else
    let t ← tableOf m
    match values.find? fun e => !t.hasColumn e.1 with
    | some e => throw (.noColumn (nameOf e.1))
    | none => pure ()
    let bound ← attempt (bindAll 1 (values.map Prod.snd))
    let _ ← attempt (bind (values.length + 1) (.int id))
    let named := (values.map Prod.fst).zip bound
    match t.row? id with
    | none => return none
    | some old => do
      let own ← attempt (changedId t id (givenId? named))
      let row : Row := { id := own, cells := overwrite t named old.cells }
      modify (setTable { t with rows := place row (t.rows.filter fun r => r.id != id) })
      get? m id

def delete (m : Model) (id : Int) : Action Bool := do
  let t ← tableOf m
  let _ ← attempt (bind 1 (.int id))
  modify (setTable { t with rows := t.rows.filter fun r => r.id != id })
  return (t.row? id).isSome

end Appwright.Store
