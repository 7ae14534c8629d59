import Appwright.Server.Access
import Appwright.Server.Hooks

/-!
# Rows over the network

The rows of models that the application opens: listing, reading, creating, changing and removing
them.
-/

namespace Appwright.Server

open Spec Store

/-- What a path of rows names: a model, and perhaps a row of it. -/
structure RowPath where
  model : Model
  id : Option Int
deriving Repr

def rowPath (setup : Setup) (path : String) : Handler (Option RowPath) := do
  match Text.splitChar '/' path with
  | _ :: _ :: name :: rest =>
    match setup.models.get? name with
    | none =>
      sendError 404 ("Unknown model: " ++ name)
      return none
    | some model =>
      if !setup.app.crud.contains name then
        sendError 403 ("CRUD disabled for " ++ name)
        return none
      match rest.head?.getD "" with
      | "" => return some ⟨model, none⟩
      | word =>
        match Decimal.readInt word with
        | .ok id => return some ⟨model, some id⟩
        | .error _ =>
          sendError 400 "Invalid row id"
          return none
  | _ =>
    sendError 404 "Invalid API path"
    return none

def idOf (row : Json.Members) : Int :=
  (((row.get? "id").getD .null).whole?).getD 0

def rowJson (m : Model) (row : Json.Members) : Json :=
  .obj (normalize m row)

def askOf (m : Model) (params : Params) : Ask where
  query := Text.trim (param params "q" "")
  sort := param params "sort" "id"
  direction := param params "dir" "desc"
  limit := wholeParam params "limit" 100
  offset := wholeParam params "offset" 0
  filters := filtersOf m params []

def listRows (setup : Setup) (m : Model) (params : Params) : Handler Unit := do
  let ask := askOf m params
  let rows ← queryRows m ask
  let expanded := expandedFields m (param params "expand" "")
  let data ← rows.mapM fun row => do
    let row ← expandRow setup expanded (normalize m row)
    return Json.obj row
  if ["1", "true", "yes"].contains (param params "count" "0") then
    let total ← countRows m ask
    sendJson (.obj [
      ("data", .arr data),
      ("count", .int total),
      ("offset", .int ask.offset),
      ("limit", .int ask.limit)])
  else sendJson (.arr data)

def readRow (setup : Setup) (m : Model) (id : Int) (params : Params) : Handler Unit := do
  match ← onStore (get? m id) with
  | none => sendError 404 "Row not found"
  | some row => do
    let expanded := expandedFields m (param params "expand" "")
    let row ← expandRow setup expanded (normalize m row)
    sendJson (.obj row)

def apiGet (setup : Setup) (r : Request) (path query : String) : Handler Unit := do
  if ← checkKey setup r then
    match ← rowPath setup path with
    | none => pure ()
    | some ⟨m, none⟩ => listRows setup m (Url.readForm query)
    | some ⟨m, some id⟩ => readRow setup m id (Url.readForm query)

def announce (setup : Setup) (r : Request) (event : String) (id : Json) (c : Change) :
    Handler Unit := do
  audit setup r [("action", .str event), ("model", .str c.model.name), ("row_id", id)]
  runHooks setup r c

def insertRow (m : Model) (payload : Json) : Handler Json.Members := do
  let fields ← attempt id (payloadFields m payload)
  onStore (insert m fields)

def createRow (setup : Setup) (r : Request) (m : Model) (payload : Json)
    (source event : String) (andThen : Json.Members → Handler Unit) : Handler Unit := do
  match ← caught (insertRow m payload) with
  | .error e => sendError 400 e.message
  | .ok row => do
    announce setup r event ((row.get? "id").getD .null)
      { event := "after_create", model := m, id := idOf row, row, payload, source }
    andThen row

/-- Answers a request to create a row. A path with a row's id is not answered. -/
def apiPost (setup : Setup) (r : Request) (path : String) : Handler Unit := do
  if ← checkKey setup r then
    match ← rowPath setup path with
    | some ⟨m, none⟩ => do
      match ← readPayload setup r with
      | none => pure ()
      | some payload =>
        createRow setup r m payload "api" "api_create" fun row => sendJson (rowJson m row) 201
    | _ => pure ()

def changeRow (setup : Setup) (r : Request) (m : Model) (id : Int) (payload : Json)
    (source event : String) (andThen : Json.Members → Handler Unit) : Handler Unit := do
  let old ← onStore (get? m id)
  let fields ← attempt (fun e => e) (payloadFields m payload)
  match ← onStore (update m id fields) with
  | none => sendError 404 "Row not found"
  | some row => do
    announce setup r event (.int id)
      { event := "after_update", model := m, id, row, old, payload, source }
    andThen row

/-- Answers a request to change a row. A path without a row's id is not answered. -/
def apiPut (setup : Setup) (r : Request) (path : String) : Handler Unit := do
  if ← checkKey setup r then
    match ← rowPath setup path with
    | some ⟨m, some id⟩ => do
      match ← readPayload setup r with
      | none => pure ()
      | some payload =>
        changeRow setup r m id payload "api" "api_update" fun row => sendJson (rowJson m row)
    | _ => pure ()

def removeRow (setup : Setup) (r : Request) (m : Model) (id : Int) (source event : String)
    (andThen : Handler Unit) : Handler Unit := do
  let old ← onStore (get? m id)
  if ← onStore (delete m id) then
    announce setup r event (.int id)
      { event := "after_delete", model := m, id, row := old.getD [], old, source }
    andThen
  else sendError 404 "Row not found"

/-- Answers a request to remove a row. A path without a row's id is not answered. -/
def apiDelete (setup : Setup) (r : Request) (path : String) : Handler Unit := do
  if ← checkKey setup r then
    match ← rowPath setup path with
    | some ⟨m, some id⟩ =>
      removeRow setup r m id "api" "api_delete" (sendJson (.obj [("ok", .bool true)]))
    | _ => pure ()

end Appwright.Server
