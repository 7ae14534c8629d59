import Appwright.Action.Flow
import Appwright.Files.Basic
import Appwright.Server.Message
import Appwright.View.Admin

/-!
# The server

A server is made from an application and its environment. It answers one request after another; what
a request may change is the state: the rows, the calls of other services, the counters of the rate
limit, and the audit log.
-/

namespace Appwright.Server

open Outbound

/-! ## Rate limits

Calls are counted by key in windows of sixty seconds. A window starts with the first call of a key
after the last window ended, and so many calls of it are allowed.
-/

structure Window (τ : Type) where
  start : τ
  calls : Nat
deriving Repr

structure Limiter (τ : Type) where
  limit : Nat
  windows : Entries (Window τ) := []
deriving Repr

namespace Limiter

variable {τ : Type}

/-- A limiter for a setting; at least one call is allowed. -/
def ofSetting (limit : Int) : Limiter τ where
  limit := max 1 limit.toNat

variable [Sub τ] [LE τ] [DecidableLE τ] [OfNat τ 60]

/-- The window of a key with a call more: the last one, unless it is over. -/
def nextWindow (last : Option (Window τ)) (now : τ) : Window τ :=
  match last with
  | some w => if (60 : τ) ≤ now - w.start then ⟨now, 1⟩ else ⟨w.start, w.calls + 1⟩
  | none => ⟨now, 1⟩

def allow (key : String) (now : τ) (l : Limiter τ) : Bool × Limiter τ :=
  let w := nextWindow (l.windows.get? key) now
  (w.calls ≤ l.limit, { l with windows := l.windows.put key w })

end Limiter

/-! ## The state -/

/-- What went wrong while a request was handled. Nothing is sent then. -/
inductive Error where
  | address (cause : Url.Error)
  | store (cause : Store.Error)
  | number (cause : Json.NumberError)
  | condition (cause : Condition.Error)
  | header (cause : HeaderError)
  | utf8 (cause : Text.Utf8Error)
  | notAscii
  | notCollection (kind : String)
  | fieldOfList
  | fieldOfText
  | noMember (kind : String)
  | missing (name : String)
deriving DecidableEq, Repr

def Error.message : Error → String
  | address cause => cause.message
  | store cause => cause.message
  | number cause => cause.message
  | condition cause => cause.message
  | header cause => cause.message
  | utf8 cause => cause.message
  | notAscii => "comparing strings with non-ASCII characters is not supported"
  | notCollection kind => "argument of type '" ++ kind ++ "' is not iterable"
  | fieldOfList => "list indices must be integers or slices, not str"
  | fieldOfText => "string indices must be integers, not 'str'"
  | noMember kind => "'" ++ kind ++ "' object has no attribute 'get'"
  | missing name => Text.quoted name

structure Setup where
  app : Spec.App
  environment : Environment
  models : Entries Spec.Model
  actions : Entries Spec.Action
  policy : String
  token : String
  maxBody : Int
  apiKey : Option String
  audits : Bool
deriving Repr

structure State where
  session : Session := {}
  store : Store := {}
  limiter : Limiter Float
  audit : List Json.Members := []
  responses : List Response := []
deriving Repr

/-- A request at work. What it did before it fails stays done. -/
abbrev Handler := EStateM Error State

def onStore {α : Type} (op : Store.Action α) : Handler α := fun s =>
  match op.run s.store with
  | .ok v store => .ok v { s with store }
  | .error e store => .error (.store e) { s with store }

/-- Runs an action. What it changes stays changed if it fails. -/
def runAction (action : Spec.Action) (c : Action.Context) :
    Handler (Except Action.Error Action.Result) := fun s =>
  match Action.run action c { session := s.session, store := s.store } with
  | .ok r w => .ok (.ok r) { s with session := w.session, store := w.store }
  | .error e w => .ok (.error e) { s with session := w.session, store := w.store }

/-! ## Sending -/

def send (status : Int) (headers : Entries String) (body : String) : Handler Unit := do
  attempt .header (checkHeaders headers)
  modify fun s => { s with responses := s.responses ++ [{ status, headers, body }] }

def sendJson (v : Json) (status : Int := 200) : Handler Unit :=
  let body := v.encode
  send status (securityHeaders ++ bodyHeaders jsonKind body) body

def sendError (status : Int) (message : String) : Handler Unit :=
  sendJson (.obj [("error", .str message)]) status

def sendPage (setup : Setup) (page : String) : Handler Unit :=
  let policy := [("Content-Security-Policy", setup.policy), ("Cache-Control", "no-store")]
  send 200 (securityHeaders ++ policy ++ bodyHeaders htmlKind page) page

def redirect (location : String) : Handler Unit :=
  send 303 (securityHeaders ++ [("Location", location)]) ""

/-! ## The audit log -/

def audit (setup : Setup) (r : Request) (fields : Json.Members) : Handler Unit := do
  if setup.audits then
    modify fun s =>
      let record : Json.Members := [
        ("ts", .float s.session.clock),
        ("ip", .str r.client),
        ("method", .str r.method),
        ("path", .str r.target)]
      { s with audit := s.audit ++ [record.update fields] }

/-! ## Starting -/

inductive StartError where
  | noStore
  | store (cause : Store.Error)
  | policy (cause : Url.Error)
  | setting (cause : Decimal.IntError)
deriving DecidableEq, Repr

def StartError.message : StartError → String
  | noStore => "unable to open database file"
  | store cause => cause.message
  | policy cause => cause.message
  | setting cause => cause.message

def setting (env : Environment) (name default : String) : Except StartError Int :=
  (Decimal.readInt ((env.get? name).getD default)).mapError .setting

def pathParts (path : String) : List String :=
  (Text.splitChar '/' path).filter fun p => !p.isEmpty && p != "."

/-- Whether a log can be written at a path: it is one, and does not lead through the file of the
store. -/
def isLogPath (storePath path : String) : Bool :=
  let parts := pathParts path
  let file := pathParts storePath
  !parts.isEmpty && !(file.length < parts.length && parts.take file.length == file)

def isStorePath (files : Files) (path : String) : Bool :=
  let name := Files.Name.ofText path
  let folder : Files.Name := { name with parts := name.parts.dropLast }
  path.isEmpty || path == ":memory:" || (files.isFolder folder && !files.isFolder name)

def start (app : Spec.App) (environment : Environment) (files : Files) (token : String)
    (session : Session) : Except StartError (Setup × State) := do
  if !isStorePath files app.dbPath then throw .noStore
  let store ← match (Store.ensure app.models).run {} with
    | .ok _ store => .ok store
    | .error e _ => .error (.store e)
  let policy ← (View.policy app).mapError .policy
  let limit ← setting environment "VIBEWEB_RATE_LIMIT" "120"
  let maxBody ← setting environment "VIBEWEB_MAX_BODY_BYTES" "1048576"
  let log := (environment.get? "VIBEWEB_AUDIT_LOG").getD ".logs/vibeweb-audit.log"
  let setup : Setup := {
    app
    environment
    models := Entries.ofPairs (app.models.map fun m => (m.name, m))
    actions := Entries.ofPairs (app.actions.map fun a => (a.name, a))
    policy
    token
    maxBody
    apiKey := environment.get? "VIBEWEB_API_KEY"
    audits := isLogPath app.dbPath log }
  return (setup, { session, store, limiter := .ofSetting limit })

end Appwright.Server
