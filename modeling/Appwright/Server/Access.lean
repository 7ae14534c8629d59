import Appwright.Server.Basic
import Appwright.Server.Chunked

/-!
# Access and payloads

Rows are reached with a key if the server has one, and the administration with a name and a
password. Forms of the administration also carry the server's token. The kind of a body says how it
is read: as JSON or as a form; anything else is an empty object.
-/

namespace Appwright.Server

open Text

def sameSecret (given secret : String) : Except Error Bool :=
  let isAscii (s : String) : Bool := s.toList.all fun c => c.toNat < 128
  if isAscii given && isAscii secret then .ok (given == secret) else .error .notAscii

def afterBlank (s : String) : String :=
  ((cutText? " " s).map Prod.snd).getD ""

def hasKey (key : String) (r : Request) : Except Error Bool := do
  let byHeader ← match r.header? "X-API-Key" with
    | some given => if given.isEmpty then .ok false else sameSecret given key
    | none => .ok false
  if byHeader then return true
  let authorization := (r.header? "Authorization").getD ""
  if startsWith authorization "Bearer " then sameSecret (afterBlank authorization) key
  else return false

def checkKey (setup : Setup) (r : Request) : Handler Bool := do
  match setup.apiKey with
  | none => return true
  | some "" => return true
  | some key =>
    if ← attempt id (hasKey key r) then return true
    send 401 (securityHeaders ++ [("Content-Type", jsonKind)])
      "\x7b\"error\":\"API key required\"\x7d"
    return false

structure Credentials where
  user : Option String
  password : Option String
deriving DecidableEq, Repr

/-- The credentials: those of the environment if it has both, or else the application's. -/
def credentials (setup : Setup) : Option Credentials :=
  let full (name : String) : Option String :=
    match setup.environment.get? name with
    | some "" => none
    | other => other
  match full "VIBEWEB_ADMIN_USER", full "VIBEWEB_ADMIN_PASSWORD" with
  | some user, some password => some ⟨some user, some password⟩
  | _, _ =>
    match setup.app.adminAuth with
    | none => none
    | some "" => none
    | some _ => some ⟨setup.app.adminUser, setup.app.adminPassword⟩

def givenCredentials? (r : Request) : Option (String × String) := do
  let authorization ← r.header? "Authorization"
  if startsWith authorization "Basic " then
    let bytes ← decodeBase64? (afterBlank authorization)
    let text ← (decode bytes).toOption
    cutText? ":" text
  else none

def hasCredentials (c : Credentials) (r : Request) : Except Error Bool :=
  match givenCredentials? r, c.user.getD "", c.password.getD "" with
  | none, _, _ => .ok false
  | _, "", _ => .ok false
  | _, _, "" => .ok false
  | some (name, word), user, password => do
    if ← sameSecret name user then sameSecret word password
    else return false

def checkAdmin (setup : Setup) (r : Request) : Handler Bool := do
  match credentials setup with
  | none => return true
  | some c =>
    if ← attempt id (hasCredentials c r) then return true
    send 401 (securityHeaders ++ [
      ("WWW-Authenticate", "Basic realm=\"VibeWeb Admin\""),
      ("Content-Type", "text/plain; charset=utf-8")]) "Authentication required"
    return false

def checkToken (setup : Setup) (payload : Json) : Handler Bool := do
  match payload with
  | .obj members =>
    let given := (Entries.get? "csrf_token" members).getD (.str "")
    if !given.truthy then
      sendError 403 "Missing CSRF token"
      return false
    if ← attempt id (sameSecret given.display setup.token) then return true
    sendError 403 "Invalid CSRF token"
    return false
  | v => throw (.noMember v.kindName)

/-- Counts a request and lets it pass if its client has not made too many. -/
def checkRate (r : Request) : Handler Bool := do
  let s ← get
  let (allowed, limiter) := s.limiter.allow r.client s.session.clock
  set { s with limiter }
  if !allowed then sendError 429 "Rate limit exceeded"
  return allowed

/-! ## Payloads -/

def readBody (setup : Setup) (r : Request) : Handler (Option (List UInt8)) := do
  match r.header? "Content-Length" with
  | some length =>
    match Decimal.readInt length with
    | .error _ =>
      sendError 400 "Invalid Content-Length"
      return none
    | .ok n =>
      if setup.maxBody < n then
        sendError 413 "Payload too large"
        return none
      return some (r.body.take n.toNat)
  | none =>
    if contains (lower ((r.header? "Transfer-Encoding").getD "")) "chunked" then
      match (Chunked.read setup.maxBody r.body).body with
      | .ok (body, _) => return some body
      | .error e =>
        sendError 400 e.message
        return none
    else return some []

def readJsonBytes (bytes : List UInt8) : Option Json := do
  let text ← (decode bytes).toOption
  (Json.read text).toOption

/-- A form as an object: a name with one value has it alone, others have a list. -/
def formObject (fields : Entries (List String)) : Json :=
  .obj (fields.mapValues fun
    | [v] => .str v
    | vs => .ofTexts vs)

/-- The payload of a request. Nothing if it was answered with an error, or if it is null. -/
def readPayload (setup : Setup) (r : Request) : Handler (Option Json) := do
  match ← readBody setup r with
  | none => return none
  | some bytes =>
    let kind := ((splitChar ';' ((r.header? "Content-Type").getD "")).head?).getD ""
    match kind with
    | "application/json" =>
      if bytes.isEmpty then return some (.obj [])
      match readJsonBytes bytes with
      | some .null => return none
      | some v => return some v
      | none =>
        sendError 400 "Invalid JSON payload"
        return none
    | "application/x-www-form-urlencoded" =>
      let text ← attempt .utf8 (decode bytes)
      return some (formObject (Url.readForm text))
    | _ => return some (.obj [])

/-- The fields that a payload gives to a model. What is no object gives none, and fails if it holds
the name of a field or is no collection. -/
def payloadFields (m : Spec.Model) (payload : Json) : Except Error Json.Members :=
  match payload with
  | .obj members => .ok members
  | .arr items =>
    if m.fieldNames.any fun f => items.any fun v => v.text? == some f then .error .fieldOfList
    else .ok []
  | .str s =>
    if m.fieldNames.any fun f => contains s f then .error .fieldOfText else .ok []
  | v => if m.fields.isEmpty then .ok [] else .error (.notCollection v.kindName)

end Appwright.Server
