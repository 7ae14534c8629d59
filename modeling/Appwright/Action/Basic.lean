import Appwright.Assistant.Reply
import Appwright.Condition.Basic
import Appwright.Outbound.Policy
import Appwright.Outbound.Session
import Appwright.Store.Query
import Appwright.Template

/-!
# Running actions: context, world and results

An action runs in a context of named values, which its templates can name, and changes a world: the
session with other services, the store, and the values that the steps of a flow share.

A result is an object with `ok`, `status` and `data`.
-/

namespace Appwright.Action

open Json Outbound

/-! ## Rows -/

inductive RowError where
  | idKind
  | idMissing
  | idText
  | orderShape
  | orderDirection
  | orderField (field : String)
deriving DecidableEq, Repr

def RowError.message : RowError → String
  | idKind => "action.db.id must be an int or string"
  | idMissing => "action.db.id is required"
  | idText => "action.db.id must be an int or numeric string"
  | orderShape => "action.db.order_by must be '<field> [asc|desc]'"
  | orderDirection => "action.db.order_by direction must be 'asc' or 'desc'"
  | orderField field => "action.db.order_by unknown field: " ++ field

/-- The id that a value stands for: a whole number, or a text that is one. -/
def rowId : Json → Except RowError Int
  | .int n => .ok n
  | .str s =>
    if Text.isBlankText s then .error .idMissing
    else
      match Decimal.readInt (Text.trim s) with
      | .ok n => .ok n
      | .error _ => .error .idText
  | _ => .error .idKind

/-- The order that a text states for a model's rows: a field, descending unless it says
otherwise. -/
def rowOrder (m : Spec.Model) (text : String) : Except RowError Store.Order :=
  match Text.words text with
  | [] => .ok {}
  | field :: rest =>
    if rest.length > 1 then .error .orderShape
    else
      let direction := Text.upper (rest.headD "desc")
      if direction != "ASC" && direction != "DESC" then .error .orderDirection
      else if field != Store.idColumn && !m.fields.has field then .error (.orderField field)
      else .ok { field, descending := direction == "DESC" }

/-! ## Runs -/

/-- Why an action fails without a result. -/
inductive Error where
  | missingPart (label part : String)
  | unknownKind (kind : String)
  | refused (cause : Refusal)
  | provider
  | template (cause : Decimal.IntError)
  | number (cause : NumberError)
  | row (cause : RowError)
  | store (cause : Store.Error)
  | noServices
  | noDatabase
  | incompleteDatabase
  | unknownModel (name : String)
  | dataKind
  | patchKind
  | unknownOp (op : String)
  | tooDeep
  | noRegistry
  | unknownAction (name : String)
  | escalation (action auth flowAuth : String)
  | assignKind (step : String)
  | assignName (step : String)
  | stepCondition (step : String) (cause : Condition.Error)
  | condition (cause : Condition.Error)
  | missingMember (name : String)
deriving DecidableEq, Repr

def Error.message : Error → String
  | missingPart label part => label ++ " action missing '" ++ part ++ "' config"
  | unknownKind kind => "Unknown action kind: " ++ kind
  | refused cause => cause.message
  | provider => "LLM provider must be openai or ollama"
  | template cause => cause.message
  | number cause => cause.message
  | row cause => cause.message
  | store cause => cause.message
  | noServices => "DB action requires services.db (missing 'services' context)"
  | noDatabase => "DB action requires services.db"
  | incompleteDatabase => "DB action requires services.db.\x7bconn,lock,models\x7d"
  | unknownModel name => "Unknown model: " ++ name
  | dataKind => "action.db.data must be an object"
  | patchKind => "action.db.patch must be an object"
  | unknownOp op => "Unknown db op: " ++ op
  | tooDeep => "Flow nesting too deep"
  | noRegistry => "Flow action requires action registry in ctx['actions']"
  | unknownAction name => "Flow step references unknown action: " ++ name
  | escalation action auth flowAuth =>
    "Flow cannot use action '" ++ action ++ "' with auth='" ++ auth ++ "' from flow auth='" ++
      flowAuth ++ "'"
  | assignKind step => "flow step.set must be an object (step: " ++ step ++ ")"
  | assignName step => "flow step.set keys must be strings (step: " ++ step ++ ")"
  | stepCondition step cause =>
    "Invalid flow step.when (step: " ++ step ++ "): " ++ cause.message
  | condition cause => cause.message
  | missingMember name => Text.quoted name

/-- Whether an action says itself what is wrong; otherwise something that it used failed. -/
def Error.isOwn : Error → Bool
  | refused (.url _) => false
  | template _ => false
  | number _ => false
  | store _ => false
  | condition _ => false
  | missingMember _ => false
  | _ => true

abbrev Result := Members

def answer (ok : Bool) (status : Int) (data : Json) : Result :=
  [("ok", .bool ok), ("status", .int status), ("data", data)]

def failure (status : Int) (message : String) : Result :=
  answer false status (.obj [("error", .str message)])

def skipped : Result :=
  answer true 204 .null ++ [("skipped", .bool true)]

def isOk (r : Result) : Bool :=
  ((r.get? "ok").getD .null).truthy

inductive Database where
  | noServices
  | missing
  | incomplete
  | ready (models : Entries Spec.Model)
deriving Repr

structure Context where
  environment : Environment
  /-- The values that templates can name, those of steps and variables apart where they are
  shared. -/
  values : Members
  /-- Steps and variables are those of the flow that runs. -/
  shared : Bool := false
  database : Database := .noServices
  registry : Option (Entries Spec.Action) := none
deriving Repr

def Context.start (environment : Environment) (input query : Json) : Context where
  environment
  values := [
    ("input", input),
    ("query", if query.truthy then query else .obj []),
    ("env", .obj (environment.mapValues .str))]

def Context.put (name : String) (v : Json) (c : Context) : Context :=
  { c with values := c.values.put name v }

def nameSet (names : List String) : Json :=
  .obj (names.map fun name => (name, .bool true))

def Context.withRegistry (registry : Entries Spec.Action) (c : Context) : Context :=
  { c.put "actions" (nameSet registry.names) with registry := some registry }

def Context.withModels (models : Entries Spec.Model) (c : Context) : Context :=
  let db := [("conn", bool true), ("lock", .bool true), ("models", nameSet models.names)]
  { c.put "services" (.obj [("db", .obj db)]) with database := .ready models }

structure World where
  session : Session := {}
  store : Store := {}
  steps : Members := []
  vars : Members := []
  /-- The actions that were run, in the order in which they began. -/
  calls : List Spec.Action := []
deriving Repr

/-- An action at work. What it did before it fails stays done. -/
abbrev Run := EStateM Error World

def Context.view (c : Context) (w : World) : Members :=
  if c.shared then (c.values.put "steps" (.obj w.steps)).put "vars" (.obj w.vars) else c.values

def render (c : Context) (v : Json) : Run Json := do
  attempt .template (Template.render (c.view (← get)) v)

def renderText (c : Context) (s : String) : Run String := do
  attempt .template (Template.renderText (c.view (← get)) s)

def onStore {α : Type} (op : Store.Action α) : Run α := fun w =>
  match op.run w.store with
  | .ok v store => .ok v { w with store }
  | .error e store => .error (.store e) { w with store }

def send (request : Request) (timeout : Float) :
    Run (Except Failure Response) := fun w =>
  let (outcome, session) := w.session.call request (.float timeout)
  .ok (read outcome) { w with session }

def pauseAfter (attempt : Nat) : Run Unit :=
  modify fun w => { w with session := w.session.pause (backoff attempt) }

/-- Waits before a request is sent again, or fails where the time to wait cannot be computed. -/
def backOff (attempt : Nat) : Run Unit :=
  if attempt < backoffEnd then pauseAfter attempt else throw (.number .tooLarge)

/-! ## Time limits -/

/-- The name under which the end of the time of a flow's step stands. -/
def deadlineName : String := "_deadline_ts"

/-- The moment at which the time ends, if the context has one. -/
def Context.deadline? (c : Context) : Option Float :=
  match c.values.get? deadlineName with
  | none | some .null => none
  | some v => v.toReal.toOption

def greater (x y : Float) : Float := if y > x then y else x

def smaller (x y : Float) : Float := if y < x then y else x

/-- A number of seconds; what is no number is none. -/
def seconds (v : Json) : Float :=
  greater 0.0 (v.toReal.toOption.getD 0.0)

/-- The time that a call may take: its own limit, cut at the end of the step's time, and never
nothing. -/
def timeLimit (c : Context) (limit : Json) (clock : Float) : Float :=
  let base := seconds limit
  let rest := match c.deadline? with
    | none => base
    | some deadline => greater 0.0 (smaller base (greater 0.0 (deadline - clock)))
  greater 0.001 rest

end Appwright.Action
