import Appwright.Assistant.Reply
import Appwright.Outbound.Policy
import Appwright.Outbound.Session
import Appwright.Spec.Check
import Appwright.Spec.Complete

/-!
# Specifications from prompts

A language model is asked for a specification. Its answer is completed and checked; if the check
fails, the model is asked again and told why, as often as the settings allow. Only a specification
that passes the check is given back.
-/

namespace Appwright.Assistant

open Spec Json Text Outbound

/-! ## Instructions -/

def instructions : String :=
  "You generate VibeWeb app specs. Return ONLY valid JSON (no markdown, no comments, no code " ++
  "fences). Always set spec_version: 1. Spec format: \x7bspec_version, name, db:\x7bpath, " ++
  "models:[\x7bname, fields:\x7bfield:type\x7d\x7d]\x7d, api:\x7bcrud:[Model...], " ++
  "actions:[...], hooks:[...]\x7d, ui:\x7badmin, admin_path, admin_auth:\x7btype, username, " ++
  "password\x7d, pages:[\x7bpath, model, title, default_query, default_sort, default_dir, " ++
  "default_filters, visible_fields, hidden_fields\x7d]\x7d\x7d. Allowed field types: text, " ++
  "int, float, bool, datetime, json, ref:<Model>. Actions: api.actions is a list of custom " ++
  "endpoints. Each action: \x7bname, kind:'http'|'llm'|'db'|'value'|'flow', method, path, " ++
  "auth:'api'|'none'|'admin', http:\x7burl, method?, headers?, body?, timeout_s?, retries?, " ++
  "expect:'auto'|'json'|'text'\x7d, llm:\x7bprovider:'openai'|'ollama', base_url?, model?, " ++
  "api_key_env?, messages:[\x7brole, content\x7d], temperature?, max_tokens?, timeout_s?, " ++
  "retries?, output:'text'|'json'\x7d, db:\x7bop:'get'|'list'|'insert'|'update'|'delete', " ++
  "model, id?, data?, patch?, limit?, offset?, order_by?\x7d, value:\x7bdata, status?:int, " ++
  "ok?:bool\x7d, flow:\x7bvars?:\x7bname:value\x7d, steps:[\x7bid, use, input?, when?, " ++
  "on_error?('stop'|'continue'|'return'), set?:\x7bname:value\x7d, retries?:int, " ++
  "timeout_s?:int, parallel?:bool\x7d], return_step?\x7d\x7d. Hooks: api.hooks is a list of " ++
  "\x7bmodel, event:'after_create'|'after_update'|'after_delete', action, " ++
  "mode:'sync'|'async', writeback?:[field...], when_changed?:[field...], " ++
  "when?:<condition>\x7d. Condition format: either an equality map like " ++
  "\x7b\"row.stage\":\"Closed Won\"\x7d or an operator object like " ++
  "\x7b\"$and\":[cond,cond]\x7d, \x7b$or:[...]\x7d, \x7b$not:cond\x7d, " ++
  "\x7b$eq:[\"expr\",value]\x7d, \x7b$ne:[\"expr\",value]\x7d, " ++
  "\x7b$gt:[\"expr\",number]\x7d, \x7b$gte:[\"expr\",number]\x7d, " ++
  "\x7b$lt:[\"expr\",number]\x7d, \x7b$lte:[\"expr\",number]\x7d, " ++
  "\x7b$in:[\"expr\",[values...]]\x7d, \x7b$contains:[\"expr\",value]\x7d, " ++
  "\x7b$startsWith:[\"expr\",\"prefix\"]\x7d, \x7b$endsWith:[\"expr\",\"suffix\"]\x7d, " ++
  "\x7b$regex:[\"expr\",\"pattern\"]\x7d, \x7b$any:[\"expr\",cond]\x7d, " ++
  "\x7b$all:[\"expr\",cond]\x7d, \x7b$exists:\"expr\"\x7d or " ++
  "\x7b$exists:[\"expr\",true|false]\x7d, \x7b$truthy:\"expr\"\x7d. A list [cond, cond, ...] " ++
  "is treated as implicit AND. Templating: strings may include $\x7bpath\x7d. If a value is " ++
  "exactly \"$\x7bpath\x7d\" it becomes a typed value (not a string). Include admin enabled " ++
  "with admin_path '/admin' and admin_auth default admin/admin unless prompt says otherwise."

/-! ## Orders -/

/-- What is asked for. A text that is empty is taken from the settings. -/
structure Order where
  prompt : String
  provider : String := "openai"
  baseUrl : String := ""
  model : String := ""
  apiKey : String := ""
  temperature : Json := .float 0.2
deriving Repr

inductive Provider where
  | chat
  | onSite
  | other
deriving DecidableEq, Repr

def Provider.ofName (name : String) : Provider :=
  match lower name with
  | "openai" | "deepseek" => chat
  | "ollama" => onSite
  | _ => other

inductive GenerateError where
  | keyNeeded
  | provider
  | tries (cause : Decimal.IntError)
  | address (cause : Url.Error)
  | noScheme (url : String)
  | refused (status : Int) (text : String)
  | unreachable (cause : Failure)
  | broken (cause : Failure)
  | unreadable (cause : ReadError)
  /-- The answer holds no text at the expected place. -/
  | unexpected (service : String) (data : Json)
  | notText (kind : String)
  | noJson
  | incomplete (cause : CompleteError)
  | rejected (attempts : Int) (last : Option Error)
deriving Repr

def GenerateError.message : GenerateError → String
  | keyNeeded => "VIBEWEB_AI_API_KEY is required for DeepSeek."
  | provider => "provider must be openai or ollama"
  | tries cause => cause.message
  | address cause => cause.message
  | noScheme url => "unknown url type: " ++ quoted url
  | refused status text => "LLM endpoint returned HTTP " ++ ofInt status ++ ": " ++ text
  | unreachable cause => "Failed to reach LLM endpoint: " ++ cause.message
  | broken cause => cause.message
  | unreadable cause => cause.message
  | unexpected service data => "Unexpected " ++ service ++ " response: " ++ data.display
  | notText kind => "'" ++ kind ++ "' object has no attribute 'strip'"
  | noJson => "Model did not return JSON"
  | incomplete cause => cause.message
  | rejected attempts last =>
    "Spec validation failed after " ++ ofInt attempts ++ " attempts: " ++
      (last.map Error.message).getD "None"

/-- Whether a failure is one of the generation itself, and not of a value on the way. -/
def GenerateError.isOwn : GenerateError → Bool
  | tries _ | address _ | noScheme _ | broken _ | unreadable _ | notText _ => false
  | incomplete cause => cause.isOwn
  | _ => true

structure Chat where
  provider : Provider
  base : String
  model : String
  key : String
  temperature : Json
deriving Repr

abbrev Run := EStateM GenerateError Session

def settingOr (env : Environment) (own setting standard : String) : String :=
  if own.isEmpty then (env.get? setting).getD standard else own

/-- Makes the chat of an order ready. A service that is known to want a key gets no call without
one. -/
def prepare (env : Environment) (order : Order) : Except GenerateError Chat := do
  let chat : Chat := {
    provider := .ofName order.provider
    base := settingOr env order.baseUrl "VIBEWEB_AI_BASE_URL" "https://api.deepseek.com/v1"
    model := settingOr env order.model "VIBEWEB_AI_MODEL" "deepseek-chat"
    key := settingOr env order.apiKey "VIBEWEB_AI_API_KEY" ""
    temperature := order.temperature }
  if chat.provider == .chat && chat.key.isEmpty then
    let url ← (Url.parse chat.base).mapError .address
    if contains (lower (url.host?.getD "")) "deepseek" then throw .keyNeeded
  return chat

def repairTries (env : Environment) : Except GenerateError Int :=
  (Decimal.readInt ((env.get? "VIBEWEB_AI_REPAIR_TRIES").getD "2")).mapError .tries

def message (role content : String) : Json :=
  .obj [("role", .str role), ("content", .str content)]

/-- The messages of an attempt: the instructions, the prompt, and why the last answer failed. -/
def messages (prompt : String) (last : Option Error) : List Json :=
  [message "system" instructions, message "user" prompt] ++
    last.toList.map fun e => message "user"
      ("Fix the JSON to satisfy the VibeWeb spec. Validation error: " ++ e.message)

def Chat.address (c : Chat) : String :=
  match c.provider with
  | .chat => chatUrl c.base
  | _ => localChatUrl c.base

def Chat.payload (c : Chat) (messages : List Json) : Json :=
  match c.provider with
  | .chat => .obj [
      ("model", .str c.model), ("messages", .arr messages), ("temperature", c.temperature)]
  | _ => .obj [
      ("model", .str c.model), ("messages", .arr messages), ("stream", .bool false),
      ("options", .obj [("temperature", c.temperature)])]

/-- The request of a chat. The key goes to services with the common interface only. -/
def Chat.request (c : Chat) (messages : List Json) : Request :=
  let request := (Request.to "POST" c.address
    (some (write ascii (c.payload messages)))).addHeader "Content-Type" "application/json"
  if c.provider == .chat && !c.key.isEmpty then
    request.addHeader "Authorization" ("Bearer " ++ c.key)
  else request

def refusalText (r : Response) : String :=
  let text := if r.unreadable.isSome then "" else trim (decodeLossy r.body)
  match read text with
  | .ok (.obj members) => ((Entries.get? "error" members).map display).getD text
  | _ => text

def answerData (r : Response) : Except GenerateError Json :=
  if isSuccess r.status then
    let text := decodeLossy r.body
    if text.isEmpty then .ok (.obj []) else (read text).mapError .unreadable
  else .error (.refused r.status (refusalText r))

def post (request : Request) : Run Json := do
  if !hasScheme request.url then throw (.noScheme request.url)
  match ← modifyGet (Session.call request (.int 60)) with
  | .error cause =>
    match cause with
    | .timeout | .broken _ => throw (.broken cause)
    | .connectTimeout | .unreachable _ => throw (.unreachable cause)
  | .ok response =>
    match answerData response with
    | .ok data => return data
    | .error e => throw e

def Chat.content (c : Chat) (data : Json) : Except GenerateError Json :=
  match c.provider with
  | .chat => (chatContent? data).elim (.error (.unexpected "OpenAI" data)) .ok
  | _ => (localContent? data).elim (.error (.unexpected "Ollama" data)) .ok

def specOfContent : Json → Except GenerateError Members
  | .str text =>
    match extract text with
    | .ok spec => (complete spec).mapError .incomplete
    | .error .missing => .error .noJson
    | .error (.json cause) => .error (.unreadable cause)
  | v => .error (.notText v.kindName)

def Chat.specOf (c : Chat) (data : Json) : Except GenerateError Members := do
  specOfContent (← c.content data)

def ask (chat : Chat) (prompt : String) (last : Option Error) : Run Members := do
  if chat.provider == .other then throw .provider
  let data ← post (chat.request (messages prompt last))
  match chat.specOf data with
  | .ok spec => return spec
  | .error e => throw e

/-- Asks until a specification passes the check, as often as is left. -/
def attempts (chat : Chat) (prompt : String) (total : Int) (last : Option Error) :
    Nat → Run Members
  | 0 => throw (.rejected total last)
  | left + 1 => do
    let spec ← ask chat prompt last
    match check spec with
    | .ok _ => return spec
    | .error e => attempts chat prompt total (some e) left

def generate (env : Environment) (order : Order) : Run Members := do
  match prepare env order, repairTries env with
  | .error e, _ => throw e
  | .ok _, .error e => throw e
  | .ok chat, .ok repairs =>
    attempts chat order.prompt (repairs + 1) none (repairs + 1).toNat

end Appwright.Assistant
