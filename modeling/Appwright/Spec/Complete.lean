import Appwright.Json.Basic
import Appwright.Text.Casing

/-!
# Completing a specification

A specification may leave out what follows from its models: the name, the models that the API
serves, the pages, and the admin area. Completing it adds those parts and sets the version; what is
there stays as it is.

The parts are taken as they are written. A part of a wrong kind is an error only where a member has
to be found in it or added to it.
-/

namespace Appwright.Spec

inductive CompleteError where
  | missing (part : String)
  | notContainer (kind : String)
  | notIterable (kind : String)
  | memberOfList
  | memberOfText
  | takesNoMember (kind : String)
  | noOperation (kind name : String)
deriving DecidableEq, Repr

def CompleteError.message : CompleteError → String
  | missing part => "Spec missing '" ++ part ++ "'"
  | notContainer kind => "argument of type '" ++ kind ++ "' is not iterable"
  | notIterable kind => "'" ++ kind ++ "' object is not iterable"
  | memberOfList => "list indices must be integers or slices, not str"
  | memberOfText => "string indices must be integers, not 'str'"
  | takesNoMember kind => "'" ++ kind ++ "' object does not support item assignment"
  | noOperation kind name => "'" ++ kind ++ "' object has no attribute '" ++ name ++ "'"

/-- Whether an error is about the specification and not about the kinds of its values. -/
def CompleteError.isOwn : CompleteError → Bool
  | missing _ => true
  | _ => false

/-- Whether a part has a name: an object among its members, a list among its items, and a text
inside. -/
def holds (name : String) : Json → Except CompleteError Bool
  | .obj members => .ok (Entries.has name members)
  | .arr items => .ok (Json.isAmong (.str name) items)
  | .str s => .ok (Text.contains s name)
  | v => .error (.notContainer v.kindName)

def setMember (name : String) (value : Json) : Json → Except CompleteError Json
  | .obj members => .ok (.obj (Entries.put name value members))
  | .arr _ => .error .memberOfList
  | v => .error (.takesNoMember v.kindName)

def addMember (name : String) (value : Except CompleteError Json) (part : Json) :
    Except CompleteError Json := do
  if ← holds name part then return part
  setMember name (← value) part

/-- The items that a value goes through: those of a list, the names of an object, the characters of
a text. -/
def itemsOf : Json → Except CompleteError (List Json)
  | .arr items => .ok items
  | .obj members => .ok (members.map fun m => .str m.1)
  | .str s => .ok (s.toList.map fun c => .str (String.singleton c))
  | v => .error (.notIterable v.kindName)

def modelsPart (db : Json) : Except CompleteError (List Json) := do
  unless ← holds "models" db do throw (.missing "db.models")
  match db with
  | .obj members => itemsOf ((Entries.get? "models" members).getD .null)
  | .arr _ => throw .memberOfList
  | _ => throw .memberOfText

def modelName? (model : Json) : Option Json :=
  (model.get? "name").filter Json.truthy

def pageFor : Json → Except CompleteError Json
  | .str name => .ok (.obj [
      ("path", .str ("/" ++ Text.lower name)),
      ("model", .str name),
      ("title", .str (name ++ " List"))])
  | v => .error (.noOperation v.kindName "lower")

def standardAccount : Json :=
  .obj [("type", .str "basic"), ("username", .str "admin"), ("password", .str "admin")]

def completeApi (names : List Json) (api : Json) : Except CompleteError Json := do
  let api ← addMember "crud" (.ok (.arr names)) api
  let api ← addMember "actions" (.ok (.arr [])) api
  addMember "hooks" (.ok (.arr [])) api

/-- Completes the user interface: a page for each model, and an admin area with an account. -/
def completeUi (names : List Json) (ui : Json) : Except CompleteError Json := do
  let ui ← addMember "pages" (.arr <$> names.mapM pageFor) ui
  let ui ← addMember "admin" (.ok (.bool true)) ui
  let ui ← addMember "admin_path" (.ok (.str "/admin")) ui
  match ui with
  | .obj members =>
    if ((Entries.get? "admin" members).getD .null).truthy then
      addMember "admin_auth" (.ok standardAccount) ui
    else return ui
  | v => throw (.noOperation v.kindName "get")

def completeMembers (members : Json.Members) : Except CompleteError Json.Members := do
  let members := (members.put "spec_version" (.int 1)).putNew "name" (.str "VibeWeb App")
  match members.get? "db" with
  | none => throw (.missing "db")
  | some db =>
    let models ← modelsPart db
    let names := models.filterMap modelName?
    let api ← completeApi names ((members.get? "api").getD (.obj []))
    let ui ← completeUi names ((members.get? "ui").getD (.obj []))
    return (members.put "api" api).put "ui" ui

def complete : Json → Except CompleteError Json.Members
  | .obj members => completeMembers members
  | .arr _ => .error .memberOfList
  | v => .error (.takesNoMember v.kindName)

end Appwright.Spec
