import Appwright.Action.Call

/-!
# Flows

The steps of a flow run one after another and share results and variables. Neighbours that are
parallel make a group: the conditions of a group are decided first, then its members run on a copy
of what is shared, and then their results are merged in order.

A flow may use other flows. Each level of nesting uses up one of a fixed number of levels, so a
flow that uses itself ends.
-/

namespace Appwright.Action

open Spec

abbrev Runner := Action → Context → Run Result

def maxDepth : Int := 24

def depthName : String := "_flow_depth"

/-- How deep the flow of a context is nested; what is no number is nothing. -/
def Context.depth (c : Context) : Int :=
  match c.values.get? depthName with
  | none => 0
  | some v => v.toWhole.toOption.getD 0

def accessRank (auth : String) : Nat :=
  match auth with
  | "api" => 1
  | "admin" => 2
  | _ => 0

def registryOf (c : Context) : Except Error (Entries Action) :=
  match c.registry with
  | none | some [] => .error .noRegistry
  | some registry => .ok registry

/-- Steps that are processed together: one step, or a longest run of parallel ones. -/
inductive Block where
  | single (step : Step)
  | group (steps : List Step)
deriving Repr

def blocks : List Step → List Block
  | [] => []
  | s :: rest =>
    if s.parallel then
      match blocks rest with
      | .group more :: others => .group (s :: more) :: others
      | others => .group [s] :: others
    else .single s :: blocks rest

def shouldRun (c : Context) (step : Step) : Run Bool := do
  if !step.condition.truthy then return true
  match Condition.eval step.condition (c.view (← get)) with
  | .ok b => return b
  | .error e => throw (if e.isForm then .stepCondition step.id e else .condition e)

/-- The moment at which the time of a step ends: that of the flow, or the step's own if it comes
sooner. -/
def stepDeadline (c : Context) (step : Step) (clock : Float) : Option Float :=
  match step.timeout with
  | .null => c.deadline?
  | limit =>
    let own := clock + seconds limit
    match c.deadline? with
    | none => some own
    | some deadline => some (smaller deadline own)

def isPast (deadline : Option Float) (clock : Float) : Bool :=
  match deadline with
  | none => false
  | some d => clock ≥ d

def timedOut : Result :=
  failure 504 "timeout"

def stepContext (c : Context) (input : Json) (deadline : Option Float) : Context :=
  let query := (c.values.get? "query").getD .null
  let own : Json.Members := [
    ("input", input),
    ("query", if query.truthy then query else .obj []),
    ("env", .obj (c.environment.mapValues .str))]
  let inherited := ["request", "hook", "services", "actions"].filterMap fun name =>
    (c.values.get? name).map fun v => (name, v)
  let ends := match deadline with
    | none => []
    | some d => [(deadlineName, Json.float d)]
  { c with
    values := own ++ inherited ++ [(depthName, Json.int (c.depth + 1))] ++ ends
    shared := true }

/-- The result of an action, and whether it failed on the way. -/
def resultOf : Except Error Result → Result × Bool
  | .ok r => (r, false)
  | .error e => (failure 500 e.message, true)

def caught (run : Run Result) : Run (Result × Bool) :=
  resultOf <$> Appwright.caught run

def stepAttempts (run : Run Result) (deadline : Option Float) (failed : Bool) :
    (left number : Nat) → Run Result
  | left, number => do
    if isPast deadline (← get).session.clock then return timedOut
    let (result, broke) ← caught run
    let failed := failed || broke
    if isOk result then return result
    match left with
    | more + 1 =>
      pauseAfter number
      stepAttempts run deadline failed more (number + 1)
    | 0 =>
      if failed && isPast deadline (← get).session.clock then return timedOut
      return result

/-- The action that a step uses: known, and asking for no more access than the flow has. -/
def actionOf (parent : Action) (registry : Entries Action) (step : Step) :
    Except Error Action :=
  match registry.get? step.use with
  | none => .error (.unknownAction step.use)
  | some a =>
    if accessRank a.auth > accessRank parent.auth then
      .error (.escalation a.name a.auth parent.auth)
    else .ok a

def runStep (runner : Runner) (parent : Action) (registry : Entries Action) (c : Context)
    (step : Step) : Run Result := do
  let action ← attempt id (actionOf parent registry step)
  let input ← if step.input.isNull
    then pure ((c.values.get? "input").getD .null) else render c step.input
  let deadline := stepDeadline c step (← get).session.clock
  withRetries step.retries "step failed" fun more =>
    stepAttempts (runner action (stepContext c input deadline)) deadline false more 0

def assignAll (c : Context) (step : String) : Json.Members → Run Unit
  | [] => pure ()
  | (name, template) :: rest => do
    if name.isEmpty then throw (.assignName step)
    let v ← render c template
    modify fun w => { w with vars := w.vars.put name v }
    assignAll c step rest

def assign (c : Context) (step : Step) : Run Unit := do
  if !step.assign.truthy then return ()
  match step.assign with
  | .obj members => assignAll c step.id members
  | _ => throw (.assignKind step.id)

def settle (c : Context) (step : Step) (result : Result) : Run Unit := do
  modify fun w => { w with steps := w.steps.put step.id (.obj result) }
  assign c step

def goesOn (step : Step) (result : Result) : Bool :=
  isOk result || Text.lower (step.onError.getD "") == "continue"

def decideAll (c : Context) : List Step → Run (List (Step × Bool))
  | [] => return []
  | s :: rest => do
    let b ← shouldRun c s
    let more ← decideAll c rest
    return (s, b) :: more

def runMembers (run : Step → Run Result) :
    List (Step × Bool) → Run (Entries Result)
  | [] => return []
  | (s, b) :: rest => do
    let own ← if b then do
        let (result, _) ← caught (run s)
        pure [(s.id, result)]
      else pure []
    let more ← runMembers run rest
    return own ++ more

def onCopy {α : Type} (run : Run α) : Run α := fun w =>
  match run w with
  | .ok v w' => .ok v { w' with steps := w.steps, vars := w.vars }
  | .error e w' => .error e { w' with steps := w.steps, vars := w.vars }

/-- What the flow knows after a block: the last result, and whether the flow ends with it. -/
inductive Progress where
  | goOn (last : Option Result)
  | stop (result : Result)
deriving Repr

def mergeResults (c : Context) (results : Entries Result) (last : Option Result) :
    List Step → Run Progress
  | [] => return .goOn last
  | s :: rest => do
    let result := (results.get? s.id).getD skipped
    settle c s result
    if goesOn s result then mergeResults c results (some result) rest else return .stop result

def runBlock (run : Step → Run Result) (c : Context) (last : Option Result) :
    Block → Run Progress
  | .single s => do
    if ← shouldRun c s then
      let result ← run s
      settle c s result
      return if goesOn s result then .goOn (some result) else .stop result
    else
      settle c s skipped
      return .goOn (some skipped)
  | .group steps => do
    let decided ← decideAll c steps
    let results ← onCopy (runMembers run decided)
    mergeResults c (Entries.ofPairs results) last steps

def runBlocks (run : Step → Run Result) (c : Context) (last : Option Result) :
    List Block → Run Progress
  | [] => return .goOn last
  | u :: rest => do
    match ← runBlock run c last u with
    | .stop result => return .stop result
    | .goOn last => runBlocks run c last rest

def startVars (c : Context) (vars : Json) : Run Unit := do
  if vars.isNull then return ()
  match ← render c vars with
  | .obj members =>
    modify fun w => { w with vars := w.vars.update (members.filter fun e => !e.1.isEmpty) }
  | _ => return ()

def flowResult (flow : Flow) (last : Option Result) : Run Result := do
  match flow.returnStep with
  | none | some "" => return last.getD (answer true 200 .null)
  | some id =>
    match (← get).steps.get? id with
    | some (.obj result) => return result
    | _ => return failure 500 "flow return_step missing"

def runFlowBody (runner : Runner) (parent : Action) (flow : Flow) (c : Context) :
    Run Result := do
  let registry ← attempt id (registryOf c)
  let c := { c with shared := true }
  startVars c flow.vars
  match ← runBlocks (runStep runner parent registry c) c none (blocks flow.steps) with
  | .stop result => return result
  | .goOn last => flowResult flow last

def note (action : Action) : Run Unit :=
  modify fun w => { w with calls := w.calls ++ [action] }

def runAt (levels : Nat) (action : Action) (c : Context) : Run Result := do
  note action
  match action.kind with
  | "http" =>
    match action.http with
    | some call => runHttp call c action.method
    | none => throw (.missingPart "HTTP" "http")
  | "llm" =>
    match action.llm with
    | some call => runLlm call c
    | none => throw (.missingPart "LLM" "llm")
  | "db" =>
    match action.db with
    | some call => runDb call c
    | none => throw (.missingPart "DB" "db")
  | "value" =>
    match action.value with
    | some constant => runConstant constant c
    | none => throw (.missingPart "Value" "value")
  | "flow" =>
    match action.flow with
    | some flow =>
      match levels with
      | 0 => throw .tooDeep
      | left + 1 => runFlowBody (runAt left) action flow c
    | none => throw (.missingPart "Flow" "flow")
  | kind => throw (.unknownKind kind)

def run (action : Action) (c : Context) : Run Result :=
  runAt (maxDepth + 1 - c.depth).toNat action c

end Appwright.Action
