import Appwright.Json.Reader
import Appwright.Json.Writer
import Appwright.Spec.Check.Action

/-!
# Checking specifications

`check` reads a specification from JSON. The parts are looked at in a fixed order, and the first
fault decides.
-/

namespace Appwright.Spec

open Json Text

/-! ## Models -/

def checkModelNames (seen : List String) : List Json → Checked (List String)
  | [] => .ok seen.reverse
  | v :: rest => do
    let members ← asObject "model" "an object" v
    let name ← asName "model.name" (member "name" .null members)
    checkIdentifier "model.name" name
    need (!seen.contains name) (.duplicate "model name" name)
    checkModelNames (name :: seen) rest

def checkFieldType (models : List String) (model field : String) : Json → Checked FieldType
  | .str name => do
    match FieldType.ofName name with
    | .ref target =>
      need (!target.isEmpty) (.unknownType name model)
      need (models.contains target) (.unknownTarget target model field)
      return .ref target
    | .other _ => throw (.unknownType name model)
    | type => return type
  | _ => .error (.fieldType model field)

def checkField (models : List String) (model : String) (field : String × Json) :
    Checked (String × FieldType) := do
  need (!field.1.isEmpty) (.emptyFieldName model)
  checkIdentifier ("field name in " ++ model) field.1
  let type ← checkFieldType models model field.1 field.2
  return (field.1, type)

def checkModel (models : List String) (v : Json) : Checked Model := do
  let members ← asObject "model" "an object" v
  let name ← asName "model.name" (member "name" .null members)
  checkIdentifier "model.name" name
  match member "fields" .null members with
  | .obj (f :: fs) =>
    let fields ← (f :: fs).mapM (checkField models name)
    return { name, fields }
  | _ => throw (.fieldsRequired name)

/-! ## Pages -/

def filterText : Json → Checked String
  | .str s => .ok s
  | .null | .arr _ | .obj _ => .error (.mustBe "page.default_filters values" "string/number/bool")
  | v => .ok v.display

def checkFilters : Json → Checked (Option (Entries String))
  | .null => .ok none
  | .obj members => do
    let filters ← members.mapM fun e => do return (e.1, ← filterText e.2)
    return some filters
  | _ => .error (.mustBe "page.default_filters" "an object")

def checkDirection : Json → Checked (Option String)
  | .null => .ok none
  | v => do
    let s ← asText "page.default_dir" "'asc' or 'desc'"
      (fun s => lower s == "asc" || lower s == "desc") v
    return some (lower s)

def checkPage (models : List Model) (v : Json) : Checked Page := do
  let page ← asObject "page" "an object" v
  let path ← asText "page.path" "a string starting with /" (startsWith · "/")
    (member "path" .null page)
  let model ← match member "model" .null page with
    | .str name =>
      match findModel? name models with
      | some m => .ok m
      | none => .error (.mustReference "page.model" "model")
    | _ => .error (.mustReference "page.model" "model")
  let title ← optionalText "page.title" "string" (member "title" .null page)
  let fields ← optionalTexts "page.fields" (member "fields" .null page)
  let query ← optionalText "page.default_query" "a string" (member "default_query" .null page)
  let sort ← optionalText "page.default_sort" "a string" (member "default_sort" .null page)
  let direction ← checkDirection (member "default_dir" .null page)
  let filters ← checkFilters (member "default_filters" .null page)
  let visible ← optionalTexts "page.visible_fields" (member "visible_fields" .null page)
  let hidden ← optionalTexts "page.hidden_fields" (member "hidden_fields" .null page)
  let known := model.fieldNames
  checkFields (.strayField "page.fields" · model.name) known (fields.getD [])
  let sorted := (sort.getD "")
  need (sorted.isEmpty || sorted == "id" || known.contains sorted)
    (.unknownField "page.default_sort" sorted model.name)
  checkFields (.unknownField "page.default_filters" · model.name) known (filters.getD []).names
  checkFields (.unknownField "page.visible_fields" · model.name) known (visible.getD [])
  checkFields (.unknownField "page.hidden_fields" · model.name) known (hidden.getD [])
  let filters := filters.filter fun fs => !fs.isEmpty
  return { path, model := model.name, title, fields, query, sort, direction, filters, visible, hidden }

/-! ## Hooks -/

def events : List String :=
  ["after_create", "after_delete", "after_update"]

def modes : List String :=
  ["async", "sync"]

def checkHookCondition (model : Model) (condition : Json) : Checked Unit :=
  let form := (Condition.checkForm condition).mapError (Error.condition "hook.when")
  match condition with
  | .obj members =>
    if Condition.isOperator members then form
    else checkFields (.unknownField "hook.when" · model.name) model.fieldNames
      ((Entries.names members).filter fun name => !contains name ".")
  | _ => form

def checkHook (models : List Model) (actions : List String) (v : Json) : Checked Hook := do
  let raw ← asObject "hook" "an object" v
  let model ← match member "model" .null raw with
    | .str name =>
      match findModel? name models with
      | some m => .ok m
      | none => .error (.mustReference "hook.model" "model")
    | _ => .error (.mustReference "hook.model" "model")
  let event ← asText "hook.event" (oneOf events) (events.contains ·) (member "event" .null raw)
  let action ← match member "action" .null raw with
    | .str name => do
      need (actions.contains name) (.mustReference "hook.action" "action")
      pure name
    | _ => .error (.mustReference "hook.action" "action")
  let mode ← asText "hook.mode" (oneOf modes) (modes.contains ·) (member "mode" (.str "async") raw)
  let writeback ← optionalTexts "hook.writeback" (member "writeback" .null raw)
  checkFields (.unknownField "hook.writeback" · model.name) model.fieldNames (writeback.getD [])
  let whenChanged ← optionalTexts "hook.when_changed" (member "when_changed" .null raw)
  checkFields (.unknownField "hook.when_changed" · model.name) model.fieldNames
    (whenChanged.getD [])
  let condition := member "when" .null raw
  checkHookCondition model condition
  return { model := model.name, event, action, mode, writeback, whenChanged, condition }

/-! ## Specifications -/

structure Admin where
  enabled : Bool
  path : String
  auth : Option String := none
  user : Option String := none
  password : Option String := none

structure Look where
  cssUrls : List String := []
  tailwind : Option Members := none
  classes : Entries String := []

def checkVersion (v : Json) : Checked Json := do
  match v.whole? with
  | none => throw (.mustBe "spec_version" "an int")
  | some n =>
    need (n == version) (.unsupportedVersion v.display)
    return v

/-- The administration pages. Credentials switch them on. -/
def checkAdmin (ui : Members) : Checked Admin := do
  let enabled := (member "admin" (.bool false) ui).truthy
  let path ← asText "ui.admin_path" "a string starting with /" (startsWith · "/")
    (member "admin_path" (.str "/admin") ui)
  match member "admin_auth" .null ui with
  | .null => return { enabled, path }
  | v =>
    let auth ← asObject "ui.admin_auth" "an object" v
    let type ← asText "ui.admin_auth.type" "'basic'" (· == "basic")
      (member "type" (.str "basic") auth)
    let user ← asName "ui.admin_auth.username" (member "username" .null auth)
    let password ← asName "ui.admin_auth.password" (member "password" .null auth)
    return { enabled := true, path, auth := some type, user := some user, password := some password }

/-- The addresses of style sheets, trimmed, blank ones left out: paths of this server, or secure
addresses. -/
def checkCssUrls : List String → Checked (List String)
  | [] => .ok []
  | raw :: rest => do
    let url := trim raw
    if url.isEmpty then checkCssUrls rest
    else
      if !startsWith url "/" then
        let parsed ← (Url.parse url).mapError Error.url
        need (parsed.scheme == "https" && !parsed.authority.isEmpty)
          (.mustBe "ui.theme.css_urls entries" "https://... or /path")
      let urls ← checkCssUrls rest
      return url :: urls

def checkClasses : Json → Checked (Entries String)
  | .obj members =>
    members.mapM fun e => do
      need (!e.1.isEmpty) (.mustBe "ui.theme.classes keys" "non-empty strings")
      match e.2 with
      | .str s => return (e.1, s)
      | _ => throw (.mustBe "ui.theme.classes values" "strings")
  | _ => .error (.mustBe "ui.theme.classes" "an object")

def checkLook (ui : Members) : Checked Look := do
  match member "theme" .null ui with
  | .null => return {}
  | v =>
    let theme ← asObject "ui.theme" "an object" v
    let urls ← match (memberOr "css_urls" (.arr []) theme).texts? with
      | some urls => .ok urls
      | none => .error (.mustBe "ui.theme.css_urls" "a list of strings")
    let cssUrls ← checkCssUrls urls
    let tailwind ← match member "tailwind_config" .null theme with
      | .null => .ok none
      | v => (asObject "ui.theme.tailwind_config" "an object" v).map some
    let classes ← checkClasses (memberOr "classes" (.obj []) theme)
    return { cssUrls, tailwind, classes }

def checkCrud (models : List String) (v : Json) : Checked (List String) := do
  match v.texts? with
  | none => throw (.mustBe "api.crud" "list of strings")
  | some names =>
    checkFields (.unknownReference "api.crud" "model") models names
    return names

def check (spec : Members) : Checked App := do
  let version ← checkVersion (member "spec_version" (.int version) spec)
  let name ← asText "name" "a string" (fun _ => true) (memberOr "name" (.str "VibeWeb App") spec)
  let db ← asObject "db" "an object" (memberOr "db" (.obj []) spec)
  let dbPath ← asText "db.path" "a string" (fun _ => true) (memberOr "path" (.str "vibeweb.db") db)
  let rawModels ← asList "db.models" (memberOr "models" (.arr []) db)
  let modelNames ← checkModelNames [] rawModels
  let models ← rawModels.mapM (checkModel modelNames)
  let api ← asObject "api" "an object" (memberOr "api" (.obj []) spec)
  let crud ← checkCrud modelNames (memberOr "crud" (.arr []) api)
  let rawActions ← asList "api.actions" (memberOr "actions" (.arr []) api)
  let rawHooks ← asList "api.hooks" (memberOr "hooks" (.arr []) api)
  let ui ← asObject "ui" "an object" (memberOr "ui" (.obj []) spec)
  let rawPages ← asList "ui.pages" (memberOr "pages" (.arr []) ui)
  let admin ← checkAdmin ui
  let look ← checkLook ui
  let pages ← rawPages.mapM (checkPage models)
  let actionNames ← checkActionNames [] rawActions
  let actions ← rawActions.mapM (checkAction models admin.path actionNames)
  let hooks ← rawHooks.mapM (checkHook models actionNames)
  return {
    name, version, dbPath, models, crud, actions, hooks, pages
    adminEnabled := admin.enabled, adminPath := admin.path, adminAuth := admin.auth
    adminUser := admin.user, adminPassword := admin.password
    cssUrls := look.cssUrls, tailwind := look.tailwind, classes := look.classes }

inductive LoadError where
  | json (cause : ReadError)
  | notObject
deriving Repr

def LoadError.message : LoadError → String
  | json cause => cause.message
  | notObject => "Spec must be an object"

def load (text : String) : Except LoadError Members :=
  match read text with
  | .ok (.obj members) => .ok members
  | .ok _ => .error .notObject
  | .error e => .error (.json e)

end Appwright.Spec
