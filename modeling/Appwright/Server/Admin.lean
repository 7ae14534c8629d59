import Appwright.Server.Api

/-!
# The administration

Pages that show and change the rows of every model.
-/

namespace Appwright.Server

open Spec

def isAdminPath (setup : Setup) (path : String) : Bool :=
  setup.app.adminEnabled &&
    (path == setup.app.adminPath || Text.startsWith path (setup.app.adminPath ++ "/"))

def adminParts (setup : Setup) (path : String) : List String :=
  let rest := String.ofList (path.toList.drop setup.app.adminPath.length)
  (Text.splitChar '/' rest).filter fun p => !p.isEmpty

def pageOf? (setup : Setup) (model : String) : Option Page :=
  setup.app.pages.find? fun p => p.model == model

/-- The name of a store that only its own connection sees. -/
def isPrivateStore (path : String) : Bool :=
  path == ":memory:" || path == ""

def showHome (setup : Setup) : Handler Unit := do
  let counts ← setup.models.mapM fun (_, m) => do
    if isPrivateStore setup.app.dbPath then throw (.store (.noTable m.name))
    let n ← onStore (Store.count m [])
    return (m, n)
  sendPage setup (View.adminHome setup.app counts)

def showRow (setup : Setup) (m : Model) (word : String) : Handler Unit := do
  match Decimal.readInt word with
  | .error _ => sendError 400 "Invalid row id"
  | .ok id => do
    match ← onStore (Store.get? m id) with
    | none => sendError 404 "Row not found"
    | some row => do
      let choices ← choicesOf setup m.fields
      sendPage setup (View.adminEdit setup.app m row setup.token choices)

def orElse (first second : String) : String :=
  if first.isEmpty then second else first

/-- What the list of rows is asked for, with the settings of the model's page where the query has
none. -/
def adminAsk (m : Model) (page : Option Page) (params : Params) : Ask × Int :=
  let of (f : Page → Option String) (default : String) : String :=
    orElse ((page.bind f).getD "") default
  let limit := wholeParam params "limit" 200
  let number := wholeParam params "page" 1
  ({
    query := orElse (Text.trim (param params "q" "")) (of Page.query "")
    sort := orElse (param params "sort" "") (of Page.sort "id")
    direction := orElse (param params "dir" "") (of Page.direction "desc")
    limit
    offset := max 0 ((max 1 number - 1) * limit)
    filters := filtersOf m params ((page.bind Page.filters).getD []) }, number)

def showRows (setup : Setup) (m : Model) (query : String) : Handler Unit := do
  let page := pageOf? setup m.name
  let (ask, number) := adminAsk m page (Url.readForm query)
  let rows ← queryRows m ask
  let total ← countRows m ask
  let choices ← choicesOf setup m.fields
  let listing : View.Listing := {
    query := ask.query
    sort := ask.sort
    direction := ask.direction
    filters := ask.filters
    page := number
    limit := ask.limit
    total
    visible := page.bind Page.visible
    hidden := page.bind Page.hidden }
  sendPage setup
    (View.adminModel setup.app m (rows.map (Store.normalize m)) listing setup.token choices)

def adminGet (setup : Setup) (path query : String) : Handler Unit := do
  let base := setup.app.adminPath
  if path == base || path == base ++ "/" then showHome setup
  else
    let parts := adminParts setup path
    match setup.models.get? (parts.head?.getD "") with
    | none => sendError 404 "Unknown model"
    | some m =>
      match parts with
      | [_, word] => showRow setup m word
      | _ => showRows setup m query

def adminChange (setup : Setup) (r : Request) (m : Model) (payload : Json) :
    List String → Handler Unit
  | ["create"] =>
    createRow setup r m payload "admin" "admin_create" fun _ => redirect (View.adminModelPath setup.app m)
  | [word, verb] => do
    if verb == "update" || verb == "delete" then
      match Decimal.readInt word with
      | .error _ => sendError 400 "Invalid row id"
      | .ok id =>
        let path := View.adminModelPath setup.app m
        if verb == "update" then
          changeRow setup r m id payload "admin" "admin_update" fun _ =>
            redirect (path ++ "/" ++ Text.ofInt id)
        else removeRow setup r m id "admin" "admin_delete" (redirect path)
    else sendError 404 "Unknown admin action"
  | _ => sendError 404 "Unknown admin action"

def withoutToken : Json → Json
  | .obj members => .obj (Entries.erase "csrf_token" members)
  | v => v

def adminPost (setup : Setup) (r : Request) (path : String) : Handler Unit := do
  match adminParts setup path with
  | [] => sendError 404 "Invalid admin path"
  | name :: rest =>
    match setup.models.get? name with
    | none => sendError 404 "Unknown model"
    | some m =>
      match ← readPayload setup r with
      | none => pure ()
      | some payload =>
        if ← checkToken setup payload then adminChange setup r m (withoutToken payload) rest

end Appwright.Server
