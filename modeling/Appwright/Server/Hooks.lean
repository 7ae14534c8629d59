import Appwright.Server.Rows

/-!
# Hooks

After a row changes, the hooks of its model for that event run one after another. A hook may ask for
fields to have changed and for a condition to hold; its action's result may be written back to the
row. A hook that runs beside the request cannot fail it.
-/

namespace Appwright.Server

open Spec

structure Change where
  event : String
  model : Model
  id : Int
  row : Json.Members
  old : Option Json.Members := none
  payload : Json := .null
  source : String
deriving Repr

namespace Change

def readRow (c : Change) : Json :=
  .obj (Store.normalize c.model c.row)

def readOld (c : Change) : Json :=
  match c.old with
  | some row => .obj (Store.normalize c.model row)
  | none => .null

def given (c : Change) : Json :=
  if c.payload.truthy then c.payload else .obj []

def input (c : Change) : Json :=
  .obj [
    ("event", .str c.event),
    ("source", .str c.source),
    ("model", .str c.model.name),
    ("row_id", .int c.id),
    ("row", c.readRow),
    ("old", c.readOld),
    ("payload", c.given)]

end Change

/-- The condition that a hook means: names without a dot are fields of the row, unless an operator
is among the names. -/
def hookCondition : Json → Json
  | .obj members =>
    if members.any fun m => Text.startsWith m.1 "$" then .obj members
    else .obj (Entries.ofPairs (members.map fun m =>
      (if Text.contains m.1 "." then m.1 else "row." ++ m.1, m.2)))
  | v => v

def conditionContext (setup : Setup) (c : Change) : Json.Members :=
  [("input", c.input), ("row", c.readRow), ("old", c.readOld), ("payload", c.given),
    ("env", .obj (setup.environment.mapValues .str))]

def hasChanged (c : Change) (fields : List String) : Bool :=
  fields.any fun f => !Json.same (c.readRow.getD f) (c.readOld.getD f)

def writtenBack (hook : Hook) (result : Action.Result) : Json.Members :=
  match (result.get? "data").getD .null with
  | .obj data => Entries.ofPairs ((hook.writeback.getD []).filterMap fun f =>
      (Entries.get? f data).map fun v => (f, v))
  | _ => []

def auditHook (setup : Setup) (r : Request) (c : Change) (hook : Hook) (what : String)
    (fields : Json.Members) : Handler Unit :=
  audit setup r ([
    ("action", .str what),
    ("hook_event", .str c.event),
    ("hook_model", .str c.model.name),
    ("hook_action", .str hook.action)] ++ fields)

/-- Whether a hook's condition holds. Records why it does not run otherwise. -/
def hookHolds (setup : Setup) (r : Request) (c : Change) (hook : Hook) : Handler Bool := do
  if !hook.condition.truthy then return true
  match Condition.eval (hookCondition hook.condition) (conditionContext setup c) with
  | .ok true => return true
  | .ok false =>
    auditHook setup r c hook "hook_skip"
      [("reason", .str "when"), ("when", hook.condition), ("row_id", .int c.id)]
    return false
  | .error e =>
    if !e.isForm then throw (.condition e)
    auditHook setup r c hook "hook_error"
      [("error", .str ("Invalid hook.when: " ++ e.message)), ("when", hook.condition),
        ("row_id", .int c.id)]
    return false

def hookContext (setup : Setup) (r : Request) (c : Change) (hook : Hook) : Action.Context :=
  ((Action.Context.start setup.environment c.input (.obj [])).put "hook"
      (.obj [("model", .str hook.model), ("event", .str hook.event)])
    |>.put "request"
      (.obj [("ip", .str r.client), ("method", .str r.method), ("path", .str r.target)])
    |>.withRegistry setup.actions).withModels setup.models

def runHookAction (setup : Setup) (r : Request) (c : Change) (hook : Hook) : Handler Unit := do
  match setup.actions.get? hook.action with
  | none => auditHook setup r c hook "hook_error" [("error", .str "Unknown action")]
  | some action =>
    match ← runAction action (hookContext setup r c hook) with
    | .error e => auditHook setup r c hook "hook_error" [("error", .str e.message)]
    | .ok result => do
      auditHook setup r c hook "hook_call"
        [("ok", (result.get? "ok").getD .null), ("status", (result.get? "status").getD .null)]
      match writtenBack hook result with
      | [] => pure ()
      | patch =>
        if c.id != 0 then
          let _ ← onStore (Store.update c.model c.id patch)
          auditHook setup r c hook "hook_writeback"
            [("row_id", .int c.id), ("fields", .ofTexts patch.names)]

def runHook (setup : Setup) (r : Request) (c : Change) (hook : Hook) : Handler Unit := do
  let watched := hook.whenChanged.getD []
  if !watched.isEmpty && c.event == "after_update" && c.old.isSome && !hasChanged c watched then
    auditHook setup r c hook "hook_skip"
      [("reason", .str "when_changed"), ("fields", .ofTexts watched), ("row_id", .int c.id)]
  else if ← hookHolds setup r c hook then runHookAction setup r c hook

/-- Runs the hooks of a change. A failure of a hook beside the request goes unnoticed. -/
def runHooks (setup : Setup) (r : Request) (c : Change) : Handler Unit := do
  let hooks := setup.app.hooks.filter fun h => h.model == c.model.name && h.event == c.event
  for hook in hooks do
    if hook.mode == "async" then
      let _ ← caught (runHook setup r c hook)
    else runHook setup r c hook

end Appwright.Server
