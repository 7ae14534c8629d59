import Appwright.Json.Basic
import Appwright.Text.Basic

/-!
# Application specifications

What an application is made of: models with typed fields, pages that show them, actions that can be
called, and hooks that run actions when rows change.

Settings that are numbers keep the value that was written for them (`Json`), because a truth value
counts as a number and is handed on as it is.
-/

namespace Appwright.Spec

inductive FieldType where
  | text
  | int
  | float
  | bool
  | datetime
  | json
  | ref (target : String)
  | other (name : String)
deriving DecidableEq, Repr

namespace FieldType

def refHead : String := "ref:"

def ofName (name : String) : FieldType :=
  match name with
  | "text" => text
  | "int" => int
  | "float" => float
  | "bool" => bool
  | "datetime" => datetime
  | "json" => json
  | _ =>
    match Text.afterText? refHead name with
    | some target => ref target
    | none => other name

def name : FieldType → String
  | text => "text"
  | int => "int"
  | float => "float"
  | bool => "bool"
  | datetime => "datetime"
  | json => "json"
  | ref target => refHead ++ target
  | other name => name

/-- The model that a reference points to; nothing for other types, or where no model is named. -/
def target? : FieldType → Option String
  | ref target => if target.isEmpty then none else some target
  | _ => none

end FieldType

structure Model where
  name : String
  fields : Entries FieldType
deriving DecidableEq, Repr, Inhabited

structure Page where
  path : String
  model : String
  title : Option String := none
  fields : Option (List String) := none
  query : Option String := none
  sort : Option String := none
  direction : Option String := none
  filters : Option (Entries String) := none
  visible : Option (List String) := none
  hidden : Option (List String) := none
deriving Repr, Inhabited

structure HttpCall where
  url : String
  method : Option String := none
  headers : Entries String := []
  /-- A template of the body; null means that the input is sent. -/
  body : Json := .null
  timeout : Json := .int 30
  retries : Json := .int 0
  expect : String := "auto"
deriving Repr, Inhabited

structure LlmCall where
  provider : String := "openai"
  baseUrl : Option String := none
  model : Option String := none
  apiKeyEnv : String := "VIBEWEB_AI_API_KEY"
  messages : List Json := []
  temperature : Json := .float 0.2
  maxTokens : Json := .null
  timeout : Json := .int 60
  retries : Json := .int 0
  output : String := "text"
deriving Repr, Inhabited

structure DbCall where
  op : String
  model : String
  id : Json := .null
  data : Json := .null
  patch : Json := .null
  limit : Json := .int 100
  offset : Json := .int 0
  orderBy : Option String := none
deriving Repr, Inhabited

structure Constant where
  data : Json
  status : Json := .int 200
  ok : Json := .bool true
deriving Repr, Inhabited

structure Step where
  id : String
  use : String
  input : Json := .null
  condition : Json := .null
  onError : Option String := none
  assign : Json := .null
  retries : Json := .int 0
  timeout : Json := .null
  parallel : Bool := false
deriving Repr, Inhabited

/-- Actions that run one after another, neighbours side by side where they are parallel. -/
structure Flow where
  steps : List Step := []
  returnStep : Option String := none
  vars : Json := .null
deriving Repr, Inhabited

structure Action where
  name : String
  kind : String := "http"
  method : String := "POST"
  path : String := ""
  auth : String := "api"
  http : Option HttpCall := none
  llm : Option LlmCall := none
  db : Option DbCall := none
  value : Option Constant := none
  flow : Option Flow := none
deriving Repr, Inhabited

structure Hook where
  model : String
  event : String
  action : String
  mode : String := "async"
  writeback : Option (List String) := none
  whenChanged : Option (List String) := none
  condition : Json := .null
deriving Repr, Inhabited

def version : Int := 1

structure App where
  name : String
  version : Json := .int Spec.version
  dbPath : String := "vibeweb.db"
  models : List Model := []
  crud : List String := []
  actions : List Action := []
  hooks : List Hook := []
  pages : List Page := []
  adminEnabled : Bool := false
  adminPath : String := "/admin"
  adminAuth : Option String := none
  adminUser : Option String := none
  adminPassword : Option String := none
  cssUrls : List String := []
  tailwind : Option Json.Members := none
  classes : Entries String := []
deriving Repr, Inhabited

def Model.fieldNames (m : Model) : List String :=
  m.fields.names

def findModel? (name : String) (models : List Model) : Option Model :=
  models.find? fun m => m.name == name

end Appwright.Spec
