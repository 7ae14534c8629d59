import Appwright.Json.Writer
import Appwright.Spec.Basic

/-!
# Specifications as JSON

Every part of a specification as an object of all its fields, and parts read back from such objects
without any check: a field that is missing has its default.
-/

namespace Appwright.Spec

open Json

def ofText? (s : Option String) : Json :=
  (s.map str).getD .null

def ofTexts? (texts : Option (List String)) : Json :=
  (texts.map ofTexts).getD .null

def ofTextEntries (es : Entries String) : Json :=
  .obj (es.mapValues .str)

def Model.toJson (m : Model) : Json :=
  .obj [("name", .str m.name), ("fields", .obj (m.fields.mapValues fun t => .str t.name))]

def Page.toJson (p : Page) : Json :=
  .obj [
    ("path", .str p.path),
    ("model", .str p.model),
    ("title", ofText? p.title),
    ("fields", ofTexts? p.fields),
    ("default_query", ofText? p.query),
    ("default_sort", ofText? p.sort),
    ("default_dir", ofText? p.direction),
    ("default_filters", (p.filters.map ofTextEntries).getD .null),
    ("visible_fields", ofTexts? p.visible),
    ("hidden_fields", ofTexts? p.hidden)]

def HttpCall.toJson (c : HttpCall) : Json :=
  .obj [
    ("url", .str c.url),
    ("method", ofText? c.method),
    ("headers", ofTextEntries c.headers),
    ("body", c.body),
    ("timeout_s", c.timeout),
    ("retries", c.retries),
    ("expect", .str c.expect)]

def LlmCall.toJson (c : LlmCall) : Json :=
  .obj [
    ("provider", .str c.provider),
    ("base_url", ofText? c.baseUrl),
    ("model", ofText? c.model),
    ("api_key_env", .str c.apiKeyEnv),
    ("messages", .arr c.messages),
    ("temperature", c.temperature),
    ("max_tokens", c.maxTokens),
    ("timeout_s", c.timeout),
    ("retries", c.retries),
    ("output", .str c.output)]

def DbCall.toJson (c : DbCall) : Json :=
  .obj [
    ("op", .str c.op),
    ("model", .str c.model),
    ("id", c.id),
    ("data", c.data),
    ("patch", c.patch),
    ("limit", c.limit),
    ("offset", c.offset),
    ("order_by", ofText? c.orderBy)]

def Constant.toJson (c : Constant) : Json :=
  .obj [("data", c.data), ("status", c.status), ("ok", c.ok)]

def Step.toJson (s : Step) : Json :=
  .obj [
    ("id", .str s.id),
    ("use", .str s.use),
    ("input", s.input),
    ("when", s.condition),
    ("on_error", ofText? s.onError),
    ("set", s.assign),
    ("retries", s.retries),
    ("timeout_s", s.timeout),
    ("parallel", .bool s.parallel)]

def Flow.toJson (f : Flow) : Json :=
  .obj [
    ("steps", .arr (f.steps.map Step.toJson)),
    ("return_step", ofText? f.returnStep),
    ("vars", f.vars)]

def Action.toJson (a : Action) : Json :=
  .obj [
    ("name", .str a.name),
    ("kind", .str a.kind),
    ("method", .str a.method),
    ("path", .str a.path),
    ("auth", .str a.auth),
    ("http", (a.http.map HttpCall.toJson).getD .null),
    ("llm", (a.llm.map LlmCall.toJson).getD .null),
    ("db", (a.db.map DbCall.toJson).getD .null),
    ("value", (a.value.map Constant.toJson).getD .null),
    ("flow", (a.flow.map Flow.toJson).getD .null)]

def Hook.toJson (h : Hook) : Json :=
  .obj [
    ("model", .str h.model),
    ("event", .str h.event),
    ("action", .str h.action),
    ("mode", .str h.mode),
    ("writeback", ofTexts? h.writeback),
    ("when_changed", ofTexts? h.whenChanged),
    ("when", h.condition)]

def App.toJson (a : App) : Json :=
  .obj [
    ("name", .str a.name),
    ("spec_version", a.version),
    ("db_path", .str a.dbPath),
    ("models", .arr (a.models.map Model.toJson)),
    ("api_crud", .ofTexts a.crud),
    ("actions", .arr (a.actions.map Action.toJson)),
    ("hooks", .arr (a.hooks.map Hook.toJson)),
    ("pages", .arr (a.pages.map Page.toJson)),
    ("admin_enabled", .bool a.adminEnabled),
    ("admin_path", .str a.adminPath),
    ("admin_auth_type", ofText? a.adminAuth),
    ("admin_username", ofText? a.adminUser),
    ("admin_password", ofText? a.adminPassword),
    ("theme_css_urls", .ofTexts a.cssUrls),
    ("theme_tailwind_config", (a.tailwind.map obj).getD .null),
    ("theme_classes", ofTextEntries a.classes)]

/-! ## Reading back -/

def textField (name default : String) (v : Json) : String :=
  ((v.get? name).bind text?).getD default

def textField? (name : String) (v : Json) : Option String :=
  (v.get? name).bind text?

def textsField? (name : String) (v : Json) : Option (List String) :=
  (v.get? name).bind texts?

def field (name : String) (default : Json) (v : Json) : Json :=
  (v.get? name).getD default

def itemsField (name : String) (v : Json) : List Json :=
  ((v.get? name).bind items?).getD []

def textEntriesField (name : String) (v : Json) : Entries String :=
  (((v.get? name).bind members?).getD []).mapValues display

def Model.ofJson (v : Json) : Model where
  name := textField "name" "" v
  fields := (textEntriesField "fields" v).mapValues FieldType.ofName

def Page.ofJson (v : Json) : Page where
  path := textField "path" "" v
  model := textField "model" "" v
  title := textField? "title" v
  fields := textsField? "fields" v
  query := textField? "default_query" v
  sort := textField? "default_sort" v
  direction := textField? "default_dir" v
  filters := ((v.get? "default_filters").bind members?).map fun _ =>
    textEntriesField "default_filters" v
  visible := textsField? "visible_fields" v
  hidden := textsField? "hidden_fields" v

def HttpCall.ofJson (v : Json) : HttpCall where
  url := textField "url" "" v
  method := textField? "method" v
  headers := textEntriesField "headers" v
  body := field "body" .null v
  timeout := field "timeout_s" (.int 30) v
  retries := field "retries" (.int 0) v
  expect := textField "expect" "auto" v

def LlmCall.ofJson (v : Json) : LlmCall where
  provider := textField "provider" "openai" v
  baseUrl := textField? "base_url" v
  model := textField? "model" v
  apiKeyEnv := textField "api_key_env" "VIBEWEB_AI_API_KEY" v
  messages := itemsField "messages" v
  temperature := field "temperature" (.float 0.2) v
  maxTokens := field "max_tokens" .null v
  timeout := field "timeout_s" (.int 60) v
  retries := field "retries" (.int 0) v
  output := textField "output" "text" v

def DbCall.ofJson (v : Json) : DbCall where
  op := textField "op" "" v
  model := textField "model" "" v
  id := field "id" .null v
  data := field "data" .null v
  patch := field "patch" .null v
  limit := field "limit" (.int 100) v
  offset := field "offset" (.int 0) v
  orderBy := textField? "order_by" v

def Constant.ofJson (v : Json) : Constant where
  data := field "data" .null v
  status := field "status" (.int 200) v
  ok := field "ok" (.bool true) v

def Step.ofJson (v : Json) : Step where
  id := textField "id" "" v
  use := textField "use" "" v
  input := field "input" .null v
  condition := field "when" .null v
  onError := textField? "on_error" v
  assign := field "set" .null v
  retries := field "retries" (.int 0) v
  timeout := field "timeout_s" .null v
  parallel := (field "parallel" .null v).truthy

def Flow.ofJson (v : Json) : Flow where
  steps := (itemsField "steps" v).map Step.ofJson
  returnStep := textField? "return_step" v
  vars := field "vars" .null v

def partField {α : Type} (name : String) (read : Json → α) (v : Json) : Option α :=
  match v.get? name with
  | none | some .null => none
  | some part => some (read part)

def Action.ofJson (v : Json) : Action where
  name := textField "name" "" v
  kind := textField "kind" "http" v
  method := textField "method" "POST" v
  path := textField "path" "" v
  auth := textField "auth" "api" v
  http := partField "http" HttpCall.ofJson v
  llm := partField "llm" LlmCall.ofJson v
  db := partField "db" DbCall.ofJson v
  value := partField "value" Constant.ofJson v
  flow := partField "flow" Flow.ofJson v

def Hook.ofJson (v : Json) : Hook where
  model := textField "model" "" v
  event := textField "event" "" v
  action := textField "action" "" v
  mode := textField "mode" "async" v
  writeback := textsField? "writeback" v
  whenChanged := textsField? "when_changed" v
  condition := field "when" .null v

def App.replace (a : App) (name : String) (v : Json) : App :=
  match name with
  | "name" => { a with name := v.display }
  | "spec_version" => { a with version := v }
  | "db_path" => { a with dbPath := v.display }
  | "models" => { a with models := (v.items?.getD []).map Model.ofJson }
  | "api_crud" => { a with crud := v.texts?.getD [] }
  | "actions" => { a with actions := (v.items?.getD []).map Action.ofJson }
  | "hooks" => { a with hooks := (v.items?.getD []).map Hook.ofJson }
  | "pages" => { a with pages := (v.items?.getD []).map Page.ofJson }
  | "admin_enabled" => { a with adminEnabled := v.truthy }
  | "admin_path" => { a with adminPath := v.display }
  | "admin_auth_type" => { a with adminAuth := v.text? }
  | "admin_username" => { a with adminUser := v.text? }
  | "admin_password" => { a with adminPassword := v.text? }
  | "theme_css_urls" => { a with cssUrls := v.texts?.getD [] }
  | "theme_tailwind_config" => { a with tailwind := v.members? }
  | "theme_classes" => { a with classes := (v.members?.getD []).mapValues display }
  | _ => a

end Appwright.Spec
