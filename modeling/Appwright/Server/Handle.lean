import Appwright.Server.Admin
import Appwright.Server.File
import Appwright.Spec.Masked

/-!
# Answering requests

A request that its client may make is answered by what its path names: an action, the rows of a
model, the administration or a page.
-/

namespace Appwright.Server

open Spec

/-! ## Actions -/

def routeOf? (setup : Setup) (method path : String) : Option Action :=
  setup.app.actions.reverse.find? fun a => Text.upper a.method == method && a.path == path

def checkCaller (setup : Setup) (r : Request) (action : Action) : Handler Bool :=
  match action.auth with
  | "api" => checkKey setup r
  | "admin" => checkAdmin setup r
  | _ => pure true

def hasPayload (method : String) : Bool :=
  ["POST", "PUT", "PATCH"].contains method

/-- What an action that is called over the network can see. -/
def requestContext (setup : Setup) (r : Request) (path : String) (payload : Json)
    (params : Entries (List String)) : Action.Context :=
  let query := Json.obj (params.mapValues fun vs => .str (vs.head?.getD ""))
  ((Action.Context.start setup.environment payload query).put "request"
      (.obj [("ip", .str r.client), ("method", .str r.method), ("path", .str path)])
    |>.withRegistry setup.actions).withModels setup.models

def resultStatus (result : Action.Result) : Int :=
  let fallback : Int := if Action.isOk result then 200 else 502
  let own := (result.get? "status").getD .null
  let status := if own.truthy then own.toWhole.toOption.getD fallback else fallback
  if statuses.contains status then status else if Action.isOk result then 200 else 502

def callAction (setup : Setup) (r : Request) (path : String) (action : Action) (payload : Json)
    (params : Entries (List String)) : Handler Unit := do
  match ← runAction action (requestContext setup r path payload params) with
  | .error e => do
    audit setup r [("action", .str "action_error"), ("action_name", .str action.name),
      ("error", .str e.message)]
    sendError (if e.isOwn then 400 else 500) e.message
  | .ok result => do
    audit setup r [("action", .str "action_call"), ("action_name", .str action.name),
      ("ok", (result.get? "ok").getD .null), ("status", (result.get? "status").getD .null)]
    sendJson (.obj result) (resultStatus result)

def handleAction (setup : Setup) (r : Request) (path query : String) (action : Action) :
    Handler Unit := do
  if ← checkCaller setup r action then
    let params := Url.readForm query
    if hasPayload r.method then
      match ← readPayload setup r with
      | none => pure ()
      | some payload => callAction setup r path action payload params
    else callAction setup r path action (.obj []) params

def hookJson (h : Hook) : Json :=
  let texts (list : Option (List String)) : Json := (list.map Json.ofTexts).getD .null
  .obj [
    ("model", .str h.model),
    ("event", .str h.event),
    ("action", .str h.action),
    ("mode", .str h.mode),
    ("writeback", texts h.writeback),
    ("when_changed", texts h.whenChanged),
    ("when", h.condition)]

/-- What the application is made of, without secrets. Fails if an action cannot be shown. -/
def describe (setup : Setup) : Except Error Json := do
  let app := setup.app
  let actions ← app.actions.mapM fun a =>
    match a.masked? with
    | some v => .ok v
    | none => .error (.noMember "NoneType")
  let model (m : Model) : Json :=
    .obj [("name", .str m.name), ("fields", .obj (m.fields.mapValues fun t => .str t.name))]
  return .obj [
    ("name", .str app.name),
    ("db", .obj [("path", .str app.dbPath)]),
    ("models", .arr (app.models.map model)),
    ("api", .obj [
      ("crud", .ofTexts app.crud),
      ("actions", .arr actions),
      ("hooks", .arr (app.hooks.map hookJson))])]

/-! ## Requests -/

def pageAt? (setup : Setup) (path : String) : Option Page :=
  setup.app.pages.reverse.find? fun p => p.path == path

def showPage (setup : Setup) (path : String) : Handler Unit := do
  match (pageAt? setup path).or setup.app.pages.head? with
  | none => sendError 404 "No pages configured"
  | some page =>
    match setup.models.get? page.model with
    | none => throw (.missing page.model)
    | some m => do
      let rows ← onStore (Store.list m [] {} 100 0)
      let choices ← choicesOf setup m.fields
      let html ← attempt .missing
        (View.page setup.app m page (rows.map (Store.normalize m)) choices)
      sendPage setup html

def notFound : Handler Unit :=
  sendError 404 "Not found"

def isApiPath (path : String) : Bool :=
  Text.startsWith path "/api/"

def handleGet (setup : Setup) (r : Request) (url : Url) : Handler Unit := do
  let path := url.path
  if path == "/healthz" then
    sendJson (.obj [("ok", .bool true), ("name", .str setup.app.name)])
  else if Text.startsWith path "/static/" then sendFile path
  else
    match routeOf? setup "GET" path with
    | some action => handleAction setup r path url.query action
    | none =>
      if path == "/api/meta" then
        if ← checkKey setup r then
          sendJson (← attempt id (describe setup))
      else if isApiPath path then apiGet setup r path url.query
      else if isAdminPath setup path then
        if ← checkAdmin setup r then adminGet setup path url.query
      else if (pageAt? setup path).isSome || path == "/" then showPage setup path
      else notFound

def handlePost (setup : Setup) (r : Request) (url : Url) : Handler Unit := do
  match routeOf? setup "POST" url.path with
  | some action => handleAction setup r url.path url.query action
  | none =>
    if isApiPath url.path then apiPost setup r url.path
    else if isAdminPath setup url.path then
      if ← checkAdmin setup r then adminPost setup r url.path
    else notFound

def handlePut (setup : Setup) (r : Request) (url : Url) : Handler Unit := do
  match routeOf? setup "PUT" url.path with
  | some action => handleAction setup r url.path url.query action
  | none => if isApiPath url.path then apiPut setup r url.path else notFound

def handleDelete (setup : Setup) (r : Request) (url : Url) : Handler Unit := do
  match routeOf? setup "DELETE" url.path with
  | some action => handleAction setup r url.path url.query action
  | none => if isApiPath url.path then apiDelete setup r url.path else notFound

def handle (setup : Setup) (r : Request) : Handler Unit := do
  if ← checkRate r then
    let url ← attempt .address (Url.parse r.target)
    match r.method with
    | "GET" => handleGet setup r url
    | "POST" => handlePost setup r url
    | "PUT" => handlePut setup r url
    | "PATCH" => handlePut setup r url
    | "DELETE" => handleDelete setup r url
    | _ => pure ()

end Appwright.Server
