import Appwright.Action.Basic

/-!
# Actions of one call

Calls of services and of language models, and operations on rows. Addresses, headers, bodies and
messages are templates. A call is tried again after a failure and after a status that may pass.
-/

namespace Appwright.Action

open Spec Json Text Store Outbound Assistant

def isBodyless (method : String) : Bool :=
  method == "GET" || method == "HEAD"

def methodOf (call : HttpCall) (fallback : String) : String :=
  upper (match call.method with
    | some m => if m.isEmpty then fallback else m
    | none => fallback)

def httpRequest (call : HttpCall) (c : Context) (fallback : String) :
    Run Request := do
  let url ← renderText c call.url
  attempt .refused (checkUrl c.environment url)
  let method := methodOf call fallback
  let headers ← render c (.obj (call.headers.mapValues .str))
  let headers := headers.members?.getD []
  let json := str "application/json"
  if isBodyless method then
    let headers := headers.putNew "Accept" json
    return headers.foldl (fun r h => r.addHeader h.1 h.2.display) (.to method url none)
  else
    let input := ((c.view (← get)).get? "input").getD .null
    let body ← render c (if call.body.isNull then input else call.body)
    let headers := (headers.putNew "Content-Type" json).putNew "Accept" json
    return headers.foldl (fun r h => r.addHeader h.1 h.2.display)
      (.to method url (some (encode body)))

def httpData (expect : String) (r : Response) : Json :=
  let text := decodeLossy r.body
  let expect := lower (if expect.isEmpty then "auto" else expect)
  let declared := lower ((r.headers.get? "Content-Type").getD "")
  if expect == "json" || (expect == "auto" && contains declared "application/json") then
    if text.isEmpty then .null else (read text).toOption.getD (.str text)
  else .str text

def callFailure (e : Failure) : Result :=
  failure (if e.isTimeout then 504 else 502) e.message

def httpResult (expect : String) : Except Failure Response → Result
  | .ok r => answer (isSuccess r.status) r.status (httpData expect r)
  | .error e => callFailure e

def withRetries (retries : Json) (complaint : String) (attempts : Nat → Run Result) : Run Result := do
  let retries ← attempt .number retries.toWhole
  if retries < 0 then return failure 502 complaint
  attempts retries.toNat

/-- What comes back is final: a response whose status is not one that may pass. -/
def settles {ε : Type} : Except ε Response → Bool
  | .ok r => !isRetryable r.status
  | .error _ => false

/-- Makes a call until what comes back settles it, and no more often than is left. -/
def callAttempts {ε : Type} (c : Context) (timeout : Json) (call : Float → Run (Except ε Response))
    (result : Except ε Response → Result) : (left number : Nat) → Run Result
  | 0, _ => do
    return result (← call (timeLimit c timeout (← get).session.clock))
  | more + 1, number => do
    let came ← call (timeLimit c timeout (← get).session.clock)
    if settles came then return result came
    backOff number
    callAttempts c timeout call result more (number + 1)

def runHttp (call : HttpCall) (c : Context) (fallback : String) : Run Result := do
  let request ← httpRequest call c fallback
  withRetries call.retries "HTTP failed" fun more =>
    callAttempts c call.timeout (send request) (httpResult call.expect) more 0

/-! ## Language models -/

/-- A chat to hold: everything that is the same in each attempt. -/
structure Chat where
  provider : String
  base : String
  model : String
  key : Option String
  messages : List Json
deriving Repr

/-- A setting of a call: its template rendered and trimmed, else the environment's, else a default. -/
def llmSetting (c : Context) (template : Option String) (setting default : String) :
    Run String := do
  let own ← match template with
    | none | some "" => pure ""
    | some s => trim <$> renderText c s
  if !own.isEmpty then return own
  match c.environment.get? setting with
  | none | some "" => return default
  | some v => return v

def llmMessage (c : Context) (message : Json) : Run Json := do
  match message.get? "role", message.get? "content" with
  | none, _ => throw (.missingMember "role")
  | _, none => throw (.missingMember "content")
  | some role, some content =>
    let text ← renderText c content.display
    return .obj [("role", role), ("content", .str text)]

def prepareChat (call : LlmCall) (c : Context) : Run Chat := do
  let provider := lower (if call.provider.isEmpty then "openai" else call.provider)
  let base ← llmSetting c call.baseUrl "VIBEWEB_AI_BASE_URL" "https://api.deepseek.com/v1"
  let model ← llmSetting c call.model "VIBEWEB_AI_MODEL" "deepseek-chat"
  let setting := if call.apiKeyEnv.isEmpty then "VIBEWEB_AI_API_KEY" else call.apiKeyEnv
  let messages ← call.messages.mapM (llmMessage c)
  return { provider, base, model, key := c.environment.get? setting, messages }

def jsonRequest (url : String) (payload : Json) : Request :=
  (Request.to "POST" url (some (encode payload))).addHeader
    "Content-Type" "application/json" |>.addHeader "Accept" "application/json"

def chatRequest (call : LlmCall) (chat : Chat) : Except Error Request :=
  if chat.provider == "openai" then
    let limit := if call.maxTokens.isNull then [] else [("max_tokens", call.maxTokens)]
    let payload := [("model", str chat.model), ("messages", .arr chat.messages),
      ("temperature", call.temperature)] ++ limit
    let request := jsonRequest (chatUrl chat.base) (.obj payload)
    match chat.key with
    | none | some "" => .ok request
    | some key => .ok (request.addHeader "Authorization" ("Bearer " ++ key))
  else if chat.provider == "ollama" then
    .ok (jsonRequest (localChatUrl chat.base) (.obj [
      ("model", .str chat.model), ("messages", .arr chat.messages), ("stream", .bool false),
      ("options", .obj [("temperature", call.temperature)])]))
  else .error .provider

def chatAddress (chat : Chat) : String :=
  if chat.provider == "openai" then chatUrl chat.base
  else localChatUrl chat.base

def llmBody (r : Response) : Bool × Json :=
  let text := decodeLossy r.body
  if text.isEmpty then (true, .null)
  else
    match read text with
    | .ok v => (true, v)
    | .error _ => (false, .str text)

def extractMessage : ExtractError → String
  | .missing => "LLM did not return JSON"
  | .json cause => cause.message

def llmContent (output content : String) : Result :=
  if output == "json" then
    match extract content with
    | .ok v => answer true 200 v
    | .error e =>
      answer false 502 (.obj [("error", .str (extractMessage e)), ("text", .str content)])
  else answer true 200 (.str content)

def llmAnswer (call : LlmCall) (chat : Chat) (r : Response) : Result :=
  let (isJson, data) := llmBody r
  if !isSuccess r.status then
    answer false r.status (if isJson then data else .obj [("error", .str data.display)])
  else
    let (label, content) := if chat.provider == "openai"
      then ("LLM", chatContent? data) else ("Ollama", localContent? data)
    match content with
    | none => failure 502 ("Unexpected " ++ label ++ " response: " ++ data.literal)
    | some content => llmContent call.output content.display

def llmResult (call : LlmCall) (chat : Chat) : Except Result Response → Result
  | .ok r => llmAnswer call chat r
  | .error result => result

def sendChat (call : LlmCall) (c : Context) (chat : Chat) (limit : Float) :
    Run (Except Result Response) := do
  match chatRequest call chat with
  | .error e => return .error (failure 502 e.message)
  | .ok request =>
    match checkUrl c.environment (chatAddress chat) with
    | .error e => return .error (failure 502 e.message)
    | .ok _ => return (← send request limit).mapError callFailure

def runLlm (call : LlmCall) (c : Context) : Run Result := do
  let chat ← prepareChat call c
  withRetries call.retries "LLM failed" fun more =>
    callAttempts c call.timeout (sendChat call c chat) (llmResult call chat) more 0

/-! ## Rows -/

def modelsOf (c : Context) : Except Error (Entries Model) :=
  match c.database with
  | .noServices => .error .noServices
  | .missing => .error .noDatabase
  | .incomplete => .error .incompleteDatabase
  | .ready models => .ok models

def rowIdOf (c : Context) (id : Json) : Run Int := do
  attempt .row (rowId (← render c id))

def fieldsOf (c : Context) (complaint : Error) (data : Json) : Run Members := do
  match ← render c (if data.truthy then data else .obj []) with
  | .obj members => return members
  | _ => throw complaint

def rowAnswer (m : Model) : Option Members → Result
  | none => failure 404 "Row not found"
  | some row => answer true 200 (.obj (normalize m row))

def runDb (call : DbCall) (c : Context) : Run Result := do
  let models ← attempt id (modelsOf c)
  match models.get? call.model with
  | none => throw (.unknownModel call.model)
  | some m =>
    match call.op with
    | "list" =>
      let order ← attempt .row (rowOrder m (call.orderBy.getD ""))
      let limit ← attempt .number call.limit.toWhole
      let offset ← attempt .number call.offset.toWhole
      let rows ← onStore (list m [] order limit offset)
      return answer true 200 (.arr (rows.map fun row => .obj (normalize m row)))
    | "get" =>
      let id ← rowIdOf c call.id
      return rowAnswer m (← onStore (get? m id))
    | "insert" =>
      let data ← fieldsOf c .dataKind call.data
      let row ← onStore (insert m data)
      return answer true 201 (.obj (normalize m row))
    | "update" =>
      let id ← rowIdOf c call.id
      let patch ← fieldsOf c .patchKind call.patch
      return rowAnswer m (← onStore (update m id patch))
    | "delete" =>
      let id ← rowIdOf c call.id
      let found ← onStore (delete m id)
      return answer found (if found then 200 else 404)
        (.obj [("deleted", .bool found), ("id", .int id)])
    | op => throw (.unknownOp op)

def runConstant (constant : Constant) (c : Context) : Run Result := do
  let data ← render c constant.data
  let status ← attempt .number constant.status.toWhole
  return answer constant.ok.truthy status data

end Appwright.Action
