import Appwright.Assistant.Generate
import Appwright.Files.Basic
import Appwright.Gallery.Bundle
import Appwright.Gallery.Multipart
import Appwright.Server.Chunked
import Appwright.Server.Message
import Appwright.Url.Form

/-!
# The gallery

The gallery serves the files of a folder, and makes an application from a prompt: a specification
is generated, and its bundle is the answer.
-/

namespace Appwright.Gallery

open Text Outbound

/-! ## Prompts

A prompt can be sent as a form in parts or in one line, as JSON, or as plain text. It can have one of
several names, and a field that is alone needs none.
-/

def textFields (members : Json.Members) : Entries String :=
  members.mapValues Json.display

def jsonFields? (text : String) : Option (Entries String) :=
  match Json.read text with
  | .ok (.obj members) => some (textFields members)
  | _ => none

def plainFields (text : String) : Entries String :=
  let text := trim text
  if text.isEmpty then []
  else
    let own := if startsWith text "\x7b" && endsWith text "\x7d" then jsonFields? text
      else none
    own.getD [("prompt", text)]

def singleFields (kind : String) (body : List UInt8) : Entries String :=
  let text := decodeLossy body
  if contains kind "application/x-www-form-urlencoded" then
    (Url.readForm text).mapValues fun values => values.headD ""
  else if contains kind "application/json" then (jsonFields? text).getD []
  else if contains kind "text/plain" || kind.isEmpty then plainFields text
  else []

def fieldsOf (contentType : String) (body : List UInt8) :
    Except Multipart.Error (Entries String) := do
  let type := trim contentType
  let kind := lower type
  let parted ←
    if contains kind "multipart/form-data" && !body.isEmpty then Multipart.fields type body
    else pure []
  return if parted.isEmpty then singleFields kind body else parted

def promptNames : List String :=
  ["prompt", "description", "text", "message", "query", "input"]

/-- The fields with their names in lower case; of two that are the same, the last value counts. -/
def lowered (fields : Entries String) : Entries String :=
  .ofPairs (fields.map fun f => (lower f.1, f.2))

def promptOf (fields : Entries String) : String :=
  let fields := lowered fields
  let named := promptNames.map fun name => (fields.get? name).getD ""
  let candidates := named ++ (if fields.length == 1 then fields.map Prod.snd else [])
  ((candidates.map trim).find? fun value => !value.isEmpty).getD ""

/-! ## Requests -/

structure Setup where
  environment : Environment := []
  files : Files := {}
  root : Files.Path
  version : String
  maxPrompt : Int := 2000
  maxBody : Int := 1048576
deriving Repr

def setup (env : Environment) (files : Files) (root : Files.Path) (version : String) :
    Except Decimal.IntError Setup := do
  let maxPrompt ← Decimal.readInt ((env.get? "VIBEWEB_AI_MAX_PROMPT").getD "2000")
  let maxBody ← Decimal.readInt ((env.get? "VIBEWEB_GALLERY_MAX_BODY_BYTES").getD "1048576")
  return { environment := env, files, root, version, maxPrompt, maxBody }

inductive Body where
  | text (s : String)
  | bundle (b : Bundle)
deriving Repr

structure Response where
  status : Int
  headers : Entries String
  body : Body
deriving Repr

inductive Error where
  | address (cause : Url.Error)
  | files (cause : Files.Error)
  | nullByte
  | bundle (cause : BundleError)
deriving Repr

def Error.message : Error → String
  | address cause => cause.message
  | files cause => cause.message
  | nullByte => "embedded null byte"
  | bundle cause => cause.message

def policy : String :=
  "default-src 'self'; " ++
  "script-src 'self' https://cdn.tailwindcss.com 'unsafe-inline'; " ++
  "style-src 'self' https://fonts.googleapis.com 'unsafe-inline'; " ++
  "font-src https://fonts.gstatic.com; " ++
  "img-src 'self' data:; " ++
  "connect-src 'self' https://cdn.tailwindcss.com; " ++
  "frame-ancestors 'none'"

def fileKinds : Entries String := [
  (".html", "text/html; charset=utf-8"),
  (".css", "text/css; charset=utf-8"),
  (".js", "application/javascript; charset=utf-8"),
  (".json", "application/json; charset=utf-8"),
  (".png", "image/png"),
  (".jpg", "image/jpeg"),
  (".jpeg", "image/jpeg"),
  (".svg", "image/svg+xml")]

/-- The ending of a name: its last dot and what follows, if something stands on both sides. -/
def ending (name : String) : String :=
  let tail := (name.toList.reverse.takeWhile (· != '.')).reverse
  if tail.isEmpty || name.length < tail.length + 2 then "" else String.ofList ('.' :: tail)

def fileKind (name : String) : String :=
  (fileKinds.get? (ending name)).getD "application/octet-stream"

/-! ## Responses -/

def plainResponse (status : Int) (text : String) : Response where
  status
  headers := Server.securityHeaders ++ Server.bodyHeaders "text/plain; charset=utf-8" text
  body := .text text

def errorResponse (status : Int) (message : String) : Response :=
  plainResponse status (ofInt status ++ " " ++ message)

def notFound : Response :=
  errorResponse 404 "Not found"

def fileResponse (name : String) (content : List UInt8) : Response :=
  let kind := fileKind name
  let page := if startsWith kind "text/html"
    then [("Content-Security-Policy", policy), ("Cache-Control", "no-store")] else []
  { status := 200
    headers := Server.securityHeaders ++ page ++
      [("Content-Type", kind), ("Content-Length", ofNat content.length)]
    body := .text (decodeLossy content) }

def bundleResponse (b : Bundle) : Response where
  status := 200
  headers := Server.securityHeaders ++
    [("Content-Type", "application/zip"),
      ("Content-Disposition", "attachment; filename=" ++ b.filename)]
  body := .bundle b

/-! ## Files -/

/-- Answers a request for a file. A path leads to a file at or below the root, or to one whose path
goes on where that of the root ends. -/
def serveFile (setup : Setup) (path : String) : Except Error Response := do
  let rel := Text.dropFront (· == '/') (if path == "/" then "/index.html" else path)
  let names := Files.segments rel
  if rel.isEmpty || names.contains ".." then return notFound
  if rel.toList.contains '\x00' then throw .nullByte
  let files := { setup.files with here := setup.root }
  let place ← (files.resolve { parts := names }).mapError .files
  if !Text.startsWith (Files.Path.text place) (Files.Path.text setup.root) then return notFound
  match files.walk Files.linkLimit [] place with
  | .error .nameTooLong => throw (.files (.place .nameTooLong (Files.Path.text place)))
  | .error _ => return notFound
  | .ok p =>
    match files.item? p with
    | some (.file content) => return fileResponse (place.getLastD "") content
    | _ => return notFound

def handleGet (setup : Setup) (path : String) : Except Error Response :=
  if path == "/healthz" then .ok (plainResponse 200 "ok") else serveFile setup path

/-! ## Applications -/

/-- The bytes of a body; a body that is too long or that cannot be read is empty. -/
def bodyOf (setup : Setup) (r : Server.Request) : List UInt8 :=
  match r.header? "Content-Length" with
  | some length =>
    match Decimal.readInt length with
    | .ok n => if setup.maxBody < n then [] else r.body.take n.toNat
    | .error _ => []
  | none =>
    if contains (lower ((r.header? "Transfer-Encoding").getD "")) "chunked" then
      match (Server.Chunked.read setup.maxBody r.body).body with
      | .ok (body, _) => body
      | .error _ => []
    else []

def orderOf (env : Environment) (prompt : String) :
    Except Json.NumberError Assistant.Order := do
  let temperature ← (Json.str ((env.get? "VIBEWEB_AI_TEMPERATURE").getD "0.2")).toReal
  return {
    prompt
    provider := (env.get? "VIBEWEB_AI_PROVIDER").getD "openai"
    temperature := .float temperature }

def generateSpec (setup : Setup) (prompt : String) (session : Session) :
    Except Response Json.Members × Session :=
  match orderOf setup.environment prompt with
  | .error e => (.error (errorResponse 500 e.message), session)
  | .ok order =>
    match Assistant.generate setup.environment order session with
    | .ok spec session => (.ok spec, session)
    | .error e session =>
      (.error (errorResponse (if e.isOwn then 400 else 500) e.message), session)

def promptIn (setup : Setup) (r : Server.Request) : Except Response String :=
  match fieldsOf ((r.header? "Content-Type").getD "") (bodyOf setup r) with
  | .error e => .error (errorResponse 500 e.message)
  | .ok fields =>
    let prompt := promptOf fields
    if prompt.isEmpty then .error (errorResponse 400 "Prompt is required")
    else if setup.maxPrompt < prompt.length then .error (errorResponse 400 "Prompt too long")
    else .ok prompt

def handleGenerate (setup : Setup) (r : Server.Request) (session : Outbound.Session) :
    Except Error Response × Session :=
  match promptIn setup r with
  | .error response => (.ok response, session)
  | .ok prompt =>
    match generateSpec setup prompt session with
    | (.error response, session) => (.ok response, session)
    | (.ok spec, session) =>
      match bundle setup.environment setup.version spec with
      | .ok b => (.ok (bundleResponse b), session)
      | .error e => (.error (.bundle e), session)

def handle (setup : Setup) (r : Server.Request) (session : Outbound.Session) :
    Except Error (Option Response) × Session :=
  match r.method, Url.parse r.target with
  | "GET", .ok url => ((handleGet setup url.path).map some, session)
  | "POST", .ok url =>
    if url.path == "/generate" then
      let (response, session) := handleGenerate setup r session
      (response.map some, session)
    else (.ok (some notFound), session)
  | "GET", .error e | "POST", .error e => (.error (.address e), session)
  | _, _ => (.ok none, session)

end Appwright.Gallery
