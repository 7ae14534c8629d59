import Appwright.Server.Basic

/-!
# Rows that a request asks for

A request may search in the fields of text, filter by fields, choose an order and a window, and have
references followed.
-/

namespace Appwright.Server

open Spec Json Text Store

open Spec (FieldType)

abbrev Params := Entries (List String)

def param (params : Params) (name default : String) : String :=
  (Url.firstValue? name params).getD default

/-- A whole number of a query; what is none counts as not given. -/
def wholeParam (params : Params) (name : String) (default : Int) : Int :=
  match Url.firstValue? name params with
  | some raw => (Decimal.readInt raw).toOption.getD default
  | none => default

def givenFilters (m : Model) (params : Params) : Entries String :=
  Entries.ofPairs (params.filterMap fun (name, values) => do
    let field ← afterText? View.filterHead name
    let raw ← values.head?
    if m.fields.has field && raw != "" then some (field, raw) else none)

/-- The filters of a listing: those of the query, and a page's for fields that the query does not
name. -/
def filtersOf (m : Model) (params : Params) (defaults : Entries String) : Entries String :=
  defaults.foldl (fun filters (field, raw) =>
    if params.has (View.filterHead ++ field) || filters.has field || !m.fields.has field || raw == ""
    then filters
    else filters.put field raw) (givenFilters m params)

def filterValue (type : FieldType) (raw : String) : Except NumberError Json :=
  match type with
  | .ref _ => (str raw).toWhole.map .int
  | .int => (str raw).toWhole.map .int
  | .float => (str raw).toReal.map .float
  | .bool => .ok (.int (if isYes raw then 1 else 0))
  | _ => .ok (.str raw)

/-- The pattern of a filter by text: one with stars or percent signs as it is, any other anywhere. -/
def filterPattern (raw : String) : String :=
  if contains raw "*" || contains raw "%" then replaceAll "*" "%" raw
  else "%" ++ raw ++ "%"

def textFields (m : Model) : List String :=
  Entries.names (m.fields.filter fun f => f.2 = .text)

def searchClauses (m : Model) (query : String) : List Clause :=
  if query.isEmpty || (textFields m).isEmpty then []
  else [.anyLike (textFields m) ("%" ++ query ++ "%")]

def filterClause (m : Model) (filter : String × String) :
    Except NumberError Clause :=
  let (field, raw) := filter
  match (m.fields.get? field).getD .text with
  | .text => .ok (.like field (filterPattern raw))
  | .json => .ok (.like field (filterPattern raw))
  | type => (filterValue type raw).map (.equals field)

def clausesOf (m : Model) (query : String) (filters : Entries String) :
    Except NumberError (List Clause) := do
  return searchClauses m query ++ (← filters.mapM (filterClause m))

def maxRows : Int := 500

/-- The order of a listing: a field that the model does not have counts as the id, and any direction
but one as falling. -/
def orderOf (m : Model) (sort direction : String) : Order where
  field := if sort == "id" || m.fields.has sort then sort else "id"
  descending := lower direction != "asc"
  small := true

structure Ask where
  query : String
  sort : String
  direction : String
  limit : Int
  offset : Int
  filters : Entries String
deriving Repr

def queryRows (m : Model) (a : Ask) : Handler (List Members) := do
  let clauses ← attempt .number (clausesOf m a.query a.filters)
  onStore (list m clauses (orderOf m a.sort a.direction) (max 1 (min a.limit maxRows))
    (max 0 a.offset))

def countRows (m : Model) (a : Ask) : Handler Nat := do
  let clauses ← attempt .number (clausesOf m a.query a.filters)
  onStore (count m clauses)

def expandedFields (m : Model) (raw : String) : List (String × String) :=
  ((splitChar ',' raw).map trim).filterMap fun field => do
    let target ← (m.fields.get? field).bind FieldType.target?
    some (field, target)

def expandField (setup : Setup) (row : Members) (field target : String) :
    Handler Members := do
  let name := field ++ "__ref"
  match setup.models.get? target, (row.get? field).getD .null with
  | none, _ => return row.put name .null
  | _, .null => return row.put name .null
  | some m, id => do
    let n ← attempt .number id.toWhole
    match ← onStore (get? m n) with
    | some found => return row.put name (.obj (normalize m found))
    | none => return row.put name .null

def expandRow (setup : Setup) (fields : List (String × String)) (row : Members) :
    Handler Members :=
  fields.foldlM (fun row (field, target) => expandField setup row field target) row

def maxChoices : Int := 200

def choicesOf (setup : Setup) : List (String × FieldType) → Handler View.Choices
  | [] => pure []
  | (field, type) :: rest => do
    match type.target? with
    | none => choicesOf setup rest
    | some target => do
      let choices ← match setup.models.get? target with
        | none => pure []
        | some m => do
          let rows ← onStore (list m [] { field := "id", descending := false } maxChoices 0)
          pure (rows.map fun r => (⟨(r.get? "id").getD .null, View.rowLabel m r⟩ : View.Choice))
      return (field, choices) :: (← choicesOf setup rest)

end Appwright.Server
