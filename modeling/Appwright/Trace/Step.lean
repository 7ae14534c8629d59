import Appwright.Json.Number
import Appwright.Json.Writer
import Appwright.Running

/-!
# Steps

A step is a function that is tried several times. Each attempt is recorded in the current report if
there is one. An attempt fails if the function does, if its time runs out, or if it returns a text
with a guarded token in it; the last failure is passed on.

The state of a run holds the clock, the current report and the alarm that is set, beside whatever
else the functions change.
-/

namespace Appwright.Trace

export Appwright (caught)

/-! ## Reports

The values that a program computes have a type of their own, which is a parameter here.
-/

variable {α : Type}

structure StepRecord where
  name : String
  status : String
  milliseconds : Int
  attempts : Nat
  error : Option String := none
deriving DecidableEq, Repr

/-- A field of an event: one that the report makes, or a value of the program. -/
inductive Note (α : Type) where
  | plain (v : Json)
  | given (v : α)
deriving Repr

/-- An event: its fields by name, the kind and the time among them. -/
abbrev Event (α : Type) := Entries (Note α)

structure Report (α : Type) where
  about : α
  startedAt : Float
  steps : List StepRecord := []
  events : List (Event α) := []
  result : Option α := none
  finishedAt : Option Float := none
deriving Repr

def elapsed (start stop : Float) : Int :=
  Decimal.truncate ((stop - start) * 1000)

def Report.finish (result : α) (clock : Float) (r : Report α) : Report α :=
  { r with result := some result, finishedAt := some clock }

def Note.map {β : Type} (f : α → β) : Note α → Note β
  | .plain v => .plain v
  | .given v => .given (f v)

def Report.map {β : Type} (f : α → β) (r : Report α) : Report β where
  about := f r.about
  startedAt := r.startedAt
  steps := r.steps
  events := r.events.map fun e => e.mapValues (Note.map f)
  result := r.result.map f
  finishedAt := r.finishedAt

/-- A field with its value changed, unless the change fails. -/
def Note.tryMap {β ε : Type} (f : α → Except ε β) : Note α → Except ε (Note β)
  | .plain v => .ok (.plain v)
  | .given v => (f v).map .given

/-- An event with its values changed, unless a change fails. -/
def Event.tryMap {β ε : Type} (f : α → Except ε β) : Event α → Except ε (Event β)
  | [] => .ok []
  | (name, v) :: rest => do
    let v ← v.tryMap f
    return (name, v) :: (← Event.tryMap f rest)

/-- A report with its values changed, unless a change fails. -/
def Report.tryMap {β ε : Type} (f : α → Except ε β) (r : Report α) : Except ε (Report β) := do
  let about ← f r.about
  let events ← r.events.mapM (Event.tryMap f)
  let result ← r.result.mapM f
  return {
    about, startedAt := r.startedAt, steps := r.steps, events, result, finishedAt := r.finishedAt }

def StepRecord.toJson (s : StepRecord) : Json :=
  .obj [
    ("name", .str s.name),
    ("status", .str s.status),
    ("duration_ms", .int s.milliseconds),
    ("attempts", .int s.attempts),
    ("error", (s.error.map Json.str).getD .null)]

/-- A report as JSON, given the JSON of the program's values. -/
def Report.toJson (encode : α → Json) (r : Report α) : Json :=
  let note : Note α → Json
    | .plain v => v
    | .given v => encode v
  .obj [
    ("meta", encode r.about),
    ("started_at", .float r.startedAt),
    ("finished_at", (r.finishedAt.map Json.float).getD .null),
    ("duration_ms", (r.finishedAt.map fun t => Json.int (elapsed r.startedAt t)).getD .null),
    ("steps", .arr (r.steps.map StepRecord.toJson)),
    ("events", .arr (r.events.map fun e => .obj (e.mapValues note))),
    ("result", (r.result.map encode).getD .null)]

end Appwright.Trace

namespace Appwright.Trace

/-! ## Steps -/

structure State (τ α : Type) where
  clock : Float := 1000.0
  report : Option (Report α) := none
  /-- The time limit whose alarm is set. -/
  alarm : Option Json := none
  rest : τ

/-- A computation that can fail and keeps what it did. -/
abbrev Run (τ α ε β : Type) := EStateM ε (State τ α) β

/-- Runs something that reaches neither the clock nor the report nor the alarm. -/
def onRest {τ α ε β : Type} (run : EStateM ε τ β) : Run τ α ε β := fun s =>
  match run s.rest with
  | .ok v rest => .ok v { s with rest }
  | .error e rest => .error e { s with rest }

instance {τ α ε : Type} : MonadLift (EStateM ε τ) (EStateM ε (State τ α)) where
  monadLift := onRest

structure Failures (ε : Type) where
  /-- The text of a failure, unless telling it fails too. -/
  describe : ε → Except ε String
  guardHit : (token : String) → ε
  guardKind : (kind : String) → ε
  guardShape : (kind : String) → ε
  badRetry : Json.NumberError → ε
  clash : (function field : String) → ε
  timedOut : (limit : String) → ε

/-- What is set for a step, as it was written. -/
structure Settings where
  name : String
  retry : Json := .int 0
  timeout : Json := .null
  guard : Json := .arr []
  produces : Json := .null
deriving Repr

variable {τ α ε β : Type}

def Settings.guardList (s : Settings) : Json :=
  if s.guard.truthy then s.guard else .arr []

def Settings.info (s : Settings) : Json :=
  .obj [
    ("retry", s.retry),
    ("timeout", s.timeout),
    ("guard", s.guardList),
    ("produces", s.produces)]

/-- How many attempts follow the first. -/
def Settings.retries (s : Settings) : Except Json.NumberError Nat :=
  s.retry.toWhole.map Int.toNat

def Settings.tokens? (s : Settings) : Option (List Json) :=
  match s.guardList with
  | .arr items => some items
  | .str text => some (text.toList.map fun c => .str (String.singleton c))
  | .obj members => some ((Entries.names members).map .str)
  | _ => none

def onReport (f : Report α → Report α) : Run τ α ε Unit :=
  modify fun s => { s with report := s.report.map f }

/-- Adds an event with its kind and the time; a field of its own may replace the time. -/
def logEvent (kind : String) (fields : Event α) : Run τ α ε Unit := do
  let clock := (← get).clock
  let event : Event α := [("kind", .plain (.str kind)), ("ts", .plain (.float clock))]
  onReport fun r => { r with events := r.events ++ [Entries.update event fields] }

/-- Adds an event of a program. Its message and its kind have names of their own. -/
def logMessage (failures : Failures ε) (message : α) (fields : Entries α) : Run τ α ε Unit := do
  if fields.has "message" then throw (failures.clash "log" "message")
  if fields.has "kind" then throw (failures.clash "log_event" "kind")
  logEvent "log" (("message", .given message) :: fields.mapValues .given)

/-- Whether a timer can be set to a time in seconds: its nanoseconds are counted in 64 bits. -/
def canTime : Json → Bool
  | .int n => 0 ≤ n && n ≤ 9223372036
  | .bool _ => true
  | .float x => 0.0 ≤ x && x ≤ 9223372036.854775
  | _ => false

/-- The alarm goes off: what runs fails if one is set. -/
def ring (failures : Failures ε) : Run τ α ε Unit := do
  match (← get).alarm with
  | some limit => throw (failures.timedOut limit.display)
  | none => pure ()

/-- Runs something with an alarm set. Afterwards the alarm from before is set again, unless the
timer could not be started. -/
def withLimit (limit : Json) (run : Run τ α ε β) : Run τ α ε β := do
  if limit.truthy then
    let before := (← get).alarm
    modify fun s => { s with alarm := some limit }
    let outcome ← caught run
    if canTime limit then modify fun s => { s with alarm := before }
    match outcome with
    | .ok v => return v
    | .error e => throw e
  else run

def checkTokens (failures : Failures ε) (text : String) : List Json → Run τ α ε Unit
  | [] => pure ()
  | .str token :: rest =>
    if Text.contains text token then throw (failures.guardHit token)
    else checkTokens failures text rest
  | v :: _ => throw (failures.guardKind v.kindName)

def attemptOnce (failures : Failures ε) (textOf : α → Option String) (s : Settings)
    (body : Run τ α ε α) : Run τ α ε α := do
  let v ← withLimit s.timeout body
  match textOf v with
  | some text =>
    match s.tokens? with
    | some tokens => checkTokens failures text tokens
    | none => throw (failures.guardShape s.guard.kindName)
  | none => pure ()
  return v

def recordStart (s : Settings) (attempt : Nat) : Run τ α ε Unit :=
  logEvent "step_start" [
    ("step", .plain (.str s.name)),
    ("attempt", .plain (.int attempt))]

def recordEnd (s : Settings) (attempt : Nat) (started : Float) (error : Option String) :
    Run τ α ε Unit := do
  let milliseconds := elapsed started (← get).clock
  let status := if error.isSome then "error" else "ok"
  onReport fun r => { r with
    steps := r.steps ++ [{ name := s.name, status, milliseconds, attempts := attempt, error }] }
  let fields : Event α := [
    ("step", .plain (.str s.name)),
    ("attempt", .plain (.int attempt)),
    ("status", .plain (.str status)),
    ("duration_ms", .plain (.int milliseconds))]
  let told : Event α := match error with
    | none => []
    | some text => [("error", .plain (.str text))]
  logEvent "step_end" (fields ++ told)

/-- One attempt of a step with a record of it, and what it came to. A failure that cannot be told is
passed on as the failure to tell it, and the attempt is left without a record of its end. -/
def attempt (failures : Failures ε) (textOf : α → Option String) (s : Settings)
    (body : Run τ α ε α) (number : Nat) : Run τ α ε (Except ε α) := do
  recordStart s number
  let started := (← get).clock
  let outcome ← caught (attemptOnce failures textOf s body)
  match outcome with
  | .ok _ => recordEnd s number started none
  | .error e =>
    match failures.describe e with
    | .ok text => recordEnd s number started (some text)
    | .error e => throw e
  return outcome

/-- Tries a step from an attempt on, as often as is left. -/
def attemptsFrom (failures : Failures ε) (textOf : α → Option String) (s : Settings)
    (body : Run τ α ε α) : (left number : Nat) → Run τ α ε α
  | left, number => do
    match ← attempt failures textOf s body number with
    | .ok v => return v
    | .error e =>
      match left with
      | 0 => throw e
      | more + 1 => attemptsFrom failures textOf s body more (number + 1)

def callStep (failures : Failures ε) (textOf : α → Option String) (s : Settings)
    (body : Run τ α ε α) : Run τ α ε α :=
  match s.retries with
  | .ok more => attemptsFrom failures textOf s body more 1
  | .error cause => throw (failures.badRetry cause)

end Appwright.Trace
