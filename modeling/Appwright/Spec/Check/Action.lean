import Appwright.Spec.Check.Part

/-!
# Checking actions
-/

namespace Appwright.Spec

open Text

def methods : List String :=
  ["DELETE", "GET", "PATCH", "POST", "PUT"]

def kinds : List String :=
  ["db", "flow", "http", "llm", "value"]

def accessLevels : List String :=
  ["admin", "api", "none"]

def dbOps : List String :=
  ["delete", "get", "insert", "list", "update"]

def oneOf (words : List String) : String :=
  "one of " ++ wordList words

def checkMethod (part : String) (v : Json) : Checked String := do
  let s ← asText part (oneOf methods) (fun s => methods.contains (upper s)) v
  return upper s

def checkHeaders : Json → Checked (Entries String)
  | .obj members =>
    members.mapM fun e =>
      match e.2 with
      | .str s => .ok (e.1, s)
      | _ => .error (.mustBe "action.http.headers" "an object of string:string")
  | _ => .error (.mustBe "action.http.headers" "an object of string:string")

def checkRetries (part : String) : Json → Checked Json :=
  asWhole part "an int between 0 and 10" fun n => 0 ≤ n && n ≤ 10

def checkTimeout (part : String) : Json → Checked Json :=
  asWhole part "an int >= 1" fun n => 1 ≤ n

/-- The call of an `http` action. It may stand under three names, and its address beside it. -/
def checkHttp (action : Json.Members) : Checked HttpCall := do
  let first := member "http" (member "request" .null action) action
  let raw := if first.truthy then first else memberOr "http_request" (.obj []) action
  let http ← asObject "action.http" "an object" raw
  let url ← asName "action.http.url" (memberOr "url" (member "url" .null action) http)
  let headers ← checkHeaders (memberOr "headers" (.obj []) http)
  let body := member "body" .null http
  let timeout ← checkTimeout "action.http.timeout_s" (member "timeout_s" (.int 30) http)
  let retries ← checkRetries "action.http.retries" (member "retries" (.int 0) http)
  let expect ← asText "action.http.expect" "'auto', 'json', or 'text'"
    (["auto", "json", "text"].contains ·) (member "expect" (.str "auto") http)
  let method ← match member "method" .null http with
    | .null => .ok none
    | v => (checkMethod "action.http.method" v).map some
  return { url, method, headers, body, timeout, retries, expect }

def checkMessage (v : Json) : Checked Json := do
  let members ← asObject "action.llm.messages items" "objects" v
  let _ ← asText "action.llm.messages.role" "system|user|assistant"
    (["system", "user", "assistant"].contains ·) (member "role" .null members)
  let _ ← asText "action.llm.messages.content" "a string" (fun _ => true)
    (member "content" .null members)
  return v

def checkTemperature (v : Json) : Checked Json :=
  let refusal : Error := .mustBe "action.llm.temperature" "between 0 and 2"
  match v with
  | .float x => if x < 0 || x > 2 then .error refusal else .ok (.float x)
  | v =>
    match v.whole? with
    | some n => if n < 0 || n > 2 then .error refusal else .ok (.float (Float.ofInt n))
    | none => .error refusal

def checkLlm (action : Json.Members) : Checked LlmCall := do
  let llm ← asObject "action.llm" "an object" (memberOr "llm" (.obj []) action)
  let provider ← asText "action.llm.provider" "'openai' or 'ollama'"
    (fun s => ["openai", "ollama"].contains (lower s)) (member "provider" (.str "openai") llm)
  let baseUrl ← optionalText "action.llm.base_url" "a string" (member "base_url" .null llm)
  let model ← optionalText "action.llm.model" "a string" (member "model" .null llm)
  let apiKeyEnv ← asName "action.llm.api_key_env"
    (member "api_key_env" (.str "VIBEWEB_AI_API_KEY") llm)
  let messages ← asList "action.llm.messages" (memberOr "messages" (.arr []) llm)
  let messages ← messages.mapM checkMessage
  let temperature ← checkTemperature (member "temperature" (.float 0.2) llm)
  let maxTokens ← match member "max_tokens" .null llm with
    | .null => .ok .null
    | v => asWhole "action.llm.max_tokens" "int >= 1" (fun n => 1 ≤ n) v
  let timeout ← checkTimeout "action.llm.timeout_s" (member "timeout_s" (.int 60) llm)
  let retries ← checkRetries "action.llm.retries" (member "retries" (.int 0) llm)
  let output ← asText "action.llm.output" "'text' or 'json'" (["text", "json"].contains ·)
    (member "output" (.str "text") llm)
  return {
    provider := lower provider, baseUrl, model, apiKeyEnv, messages, temperature, maxTokens
    timeout, retries, output }

def checkFieldObject (model : Model) (part : String) : Json → Checked Json.Members
  | .obj members => do
    checkFields (.strayField part · model.name) model.fieldNames (Entries.names members)
    return members
  | _ => .error (.mustBe part "an object")

def checkRowId (op : String) (id : Json) : Checked Unit :=
  match id with
  | .str _ | .int _ | .bool _ => .ok ()
  | _ => .error (.required "action.db.id" ("for op=" ++ op ++ " (string or int)"))

def checkDbNeeds (model : Model) (op : String) (id data patch : Json) : Checked Unit := do
  if op == "insert" then
    need (!data.isNull) (.required "action.db.data" "for op=insert")
    let members ← checkFieldObject model "action.db.data" data
    need (!members.isEmpty) .dataEmpty
  else if op == "update" then
    checkRowId op id
    need (!patch.isNull) (.required "action.db.patch" "for op=update")
    let _ ← checkFieldObject model "action.db.patch" patch
  else if op == "get" || op == "delete" then checkRowId op id

def objectOrNull : Json → Json
  | .obj members => .obj members
  | _ => .null

def checkDb (models : List Model) (action : Json.Members) : Checked DbCall := do
  let db ← asObject "action.db" "an object" (memberOr "db" (.obj []) action)
  let op ← asText "action.db.op" (oneOf dbOps) (dbOps.contains ·) (member "op" .null db)
  let model ← match member "model" .null db with
    | .str name =>
      match findModel? name models with
      | some m => .ok m
      | none => .error (.mustReference "action.db.model" "model")
    | _ => .error (.mustReference "action.db.model" "model")
  let id := member "id" .null db
  let data := member "data" .null db
  let patch := member "patch" .null db
  let limit ← (member "limit" (.int 100) db).toWhole.mapError .number
  let offset ← (member "offset" (.int 0) db).toWhole.mapError .number
  let orderBy ← optionalText "action.db.order_by" "a string" (member "order_by" .null db)
  need (1 ≤ limit && limit ≤ 1000) (.mustBe "action.db.limit" "between 1 and 1000")
  need (0 ≤ offset) (.mustBe "action.db.offset" ">= 0")
  checkDbNeeds model op id data patch
  return {
    op, model := model.name, id, data := objectOrNull data, patch := objectOrNull patch
    limit := .int limit, offset := .int offset, orderBy }

def checkConstant (action : Json.Members) : Checked Constant := do
  let value ← asObject "action.value" "an object" (member "value" .null action)
  match value.get? "data" with
  | none => throw (.required "action.value.data" "(can be null)")
  | some data =>
    let status ← asWhole "action.value.status" "an int between 100 and 599"
      (fun n => 100 ≤ n && n ≤ 599) (member "status" (.int 200) value)
    match member "ok" (.bool true) value with
    | .bool ok => return { data, status, ok := .bool ok }
    | _ => throw (.mustBe "action.value.ok" "a boolean")

def checkNames (kind part : String) : List String → Checked Unit
  | [] => .ok ()
  | name :: rest => do
    need (!name.isEmpty) (.mustBe (kind ++ " keys") "strings")
    checkIdentifier part name
    checkNames kind part rest

def checkSettings (kind part : String) : Json → Checked Json
  | .null => .ok .null
  | .obj members => do
    checkNames kind part (Entries.names members)
    return .obj members
  | _ => .error (.mustBe kind "an object")

def checkStep (actions : List String) (self : String) (seen : List String) (v : Json) :
    Checked Step := do
  let step ← asObject "flow step" "an object" v
  let id ← asName "flow step.id" (member "id" .null step)
  checkIdentifier "flow step.id" id
  need (!seen.contains id) (.duplicate "flow step id" id)
  let use ← asName "flow step.use" (member "use" .null step)
  need (use != self) .selfReference
  need (actions.contains use) (.unknownReference "flow step.use" "action" use)
  let condition := member "when" .null step
  (Condition.checkForm condition).mapError (.condition "flow step.when")
  let retries ← checkRetries "flow step.retries" (member "retries" (.int 0) step)
  let timeout ← match member "timeout_s" .null step with
    | .null => .ok .null
    | v => checkTimeout "flow step.timeout_s" v
  let parallel ← match member "parallel" (.bool false) step with
    | .bool b => .ok b
    | _ => .error (.mustBe "flow step.parallel" "a boolean")
  let onError ← match member "on_error" .null step with
    | .null => .ok none
    | v => (asText "flow step.on_error" "one of: stop, continue, return"
        (["stop", "continue", "return"].contains ·) v).map some
  let assign ← checkSettings "flow step.set" "flow step.set key" (member "set" .null step)
  let number (v : Json) : Json := match v.whole? with
    | some n => .int n
    | none => v
  return {
    id, use, input := member "input" .null step, condition, onError, assign
    retries := number retries, timeout := number timeout, parallel }

def checkSteps (actions : List String) (self : String) (seen : List String) :
    List Json → Checked (List Step)
  | [] => .ok []
  | v :: rest => do
    let step ← checkStep actions self seen v
    let steps ← checkSteps actions self (step.id :: seen) rest
    return step :: steps

def checkFlow (actions : List String) (self : String) (action : Json.Members) : Checked Flow := do
  let flow ← asObject "action.flow" "an object" (memberOr "flow" (.obj []) action)
  let vars ← checkSettings "action.flow.vars" "flow vars key" (member "vars" .null flow)
  let steps ← match memberOr "steps" (.arr []) flow with
    | .arr (s :: ss) => checkSteps actions self [] (s :: ss)
    | _ => .error (.mustBe "action.flow.steps" "a non-empty list")
  let returnStep ← match member "return_step" (member "return" .null flow) flow with
    | .null => .ok none
    | v => do
      let id ← asName "action.flow.return_step" v
      need (steps.any fun s => s.id == id)
        (.mustBe "action.flow.return_step" "one of flow step ids")
      pure (some id)
  return { steps, returnStep, vars }

def isUnder (area path : String) : Bool :=
  path == area || startsWith path (area ++ "/")

def checkActionPath (adminPath : String) (models : List String) (path : String) : Checked Unit := do
  need (!startsWith path "/static/") (.reservedPath "/static/")
  need (!isUnder adminPath path) (.reservedPath "ui.admin_path")
  match models.find? fun m => isUnder ("/api/" ++ m) path with
  | some m => throw (.crudPath m path)
  | none => return ()

def checkActionNames (seen : List String) : List Json → Checked (List String)
  | [] => .ok seen.reverse
  | v :: rest => do
    let action ← asObject "action" "an object" v
    let name ← asName "action.name" (member "name" .null action)
    need (!seen.contains name) (.duplicate "action name" name)
    checkActionNames (name :: seen) rest

def checkAction (models : List Model) (adminPath : String) (actions : List String) (v : Json) :
    Checked Action := do
  let raw ← asObject "action" "an object" v
  let name ← asName "action.name" (member "name" .null raw)
  let kind ← asText "action.kind" (oneOf kinds) (kinds.contains ·) (member "kind" (.str "http") raw)
  let method ← checkMethod "action.method" (member "method" (.str "POST") raw)
  let path ← asText "action.path" "a string starting with /" (startsWith · "/")
    (memberOr "path" (.str ("/api/actions/" ++ name)) raw)
  let auth ← asText "action.auth" (oneOf accessLevels) (accessLevels.contains ·)
    (member "auth" (.str "api") raw)
  checkActionPath adminPath (models.map Model.name) path
  let action : Action := { name, kind, method, path, auth }
  match kind with
  | "http" => return { action with http := some (← checkHttp raw) }
  | "llm" => return { action with llm := some (← checkLlm raw) }
  | "db" => return { action with db := some (← checkDb models raw) }
  | "value" => return { action with value := some (← checkConstant raw) }
  | _ => return { action with flow := some (← checkFlow actions name raw) }

end Appwright.Spec
