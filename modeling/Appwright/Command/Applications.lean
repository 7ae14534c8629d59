import Appwright.Command.Programs
import Appwright.Gallery.Handle

/-!
# The tool for applications

Commands that check, run, make and format the specifications of applications.
-/

namespace Appwright.Command

open Files

structure Endpoint where
  host : String
  port : Int
deriving DecidableEq, Repr

def Endpoint.url (e : Endpoint) : String :=
  "http://" ++ e.host ++ ":" ++ Text.ofInt e.port

/-! ## Checking -/

def problem? (files : Files) (place : Path) : Option String :=
  match files.readPlace place with
  | .error e => some e.message
  | .ok text =>
    match Spec.load text with
    | .error e => some e.message
    | .ok spec =>
      match Spec.check spec with
      | .error e => some e.message
      | .ok _ => none

/-- The files that written names stand for, each once. -/
def collectAll (files : Files) : List String → Except Error (List Path)
  | [] => .ok []
  | written :: rest => do
    let found ← files.collect ".vweb.json" written
    return found ++ (← collectAll files rest)

def validateAll (paths : List String) : Run Exit := do
  let c ← get
  let places := (← attempt .files (collectAll c.files paths)).eraseDups
  let problems := places.filterMap fun place => (problem? c.files place).map (place, ·)
  if places.isEmpty then
    complain ("ERROR: No spec files found. " ++
      "Expected a .vweb.json file or a directory containing them.")
    return .code 1
  else if problems.isEmpty then
    printLine (if places.length == 1 then "OK"
      else "OK (" ++ Text.ofNat places.length ++ " files)")
    return .code 0
  else
    for (place, text) in problems do
      complain ("ERROR: " ++ Path.text place ++ ": " ++ text)
    return .code 1

/-! ## Serving -/

def serve (file : String) (endpoint : Endpoint) : Run Exit := do
  let spec ← attempt .spec (Spec.load (← readFile file))
  let app ← attempt .specPart (Spec.check spec)
  let c ← get
  let _ ← attempt .start (Server.start app c.environment c.files "" c.session)
  attempt .port (checkPort endpoint.port)
  printLine ("VibeWeb running on " ++ endpoint.url)
  return .code 0

def serveGallery (root : String) (endpoint : Endpoint) : Run Exit := do
  let c ← get
  let name := Name.ofText (if root.isEmpty then "examples" else root)
  let place ← attempt .files (c.files.resolve name)
  if c.files.isFolder name then
    let _ ← attempt .setting (Gallery.setup c.environment c.files place "")
    attempt .port (checkPort endpoint.port)
    printLine ("VibeWeb gallery on " ++ endpoint.url)
    return .code 0
  else return .text ("Gallery root not found: " ++ Path.text place)

/-! ## Making -/

def sample : Json :=
  .obj [
    ("name", .str "Todo App"),
    ("spec_version", .int 1),
    ("db", .obj [
      ("path", .str "todo.db"),
      ("models", .arr [
        .obj [
          ("name", .str "Todo"),
          ("fields", .obj [
            ("title", .str "text"),
            ("done", .str "bool"),
            ("created_at", .str "datetime")])]])]),
    ("api", .obj [("crud", .arr [.str "Todo"])]),
    ("ui", .obj [
      ("admin", .bool true),
      ("admin_path", .str "/admin"),
      ("admin_auth", .obj [
        ("type", .str "basic"),
        ("username", .str "admin"),
        ("password", .str "change_me")]),
      ("pages", .arr [
        .obj [("path", .str "/"), ("model", .str "Todo"), ("title", .str "Todos")]])])]

def writeSample (file : String) (force : Bool) : Run Exit := do
  let name := Name.ofText file
  let c ← get
  let there ← attempt .files (c.files.isThere name)
  if there && !force then return .text ("File already exists: " ++ name.text)
  writeFile file (Json.write Json.pretty sample)
  printLine name.text
  return .code 0

def onSession {α : Type} (run : Assistant.Run α) : Run α := fun c =>
  match run c.session with
  | .ok v session => .ok v { c with session }
  | .error e session => .error (.generate e) { c with session }

def generateFrom (order : Assistant.Order) (promptFile out : String) : Run Exit := do
  if order.prompt.isEmpty && promptFile.isEmpty then
    return .text "Provide --prompt or --prompt-file"
  let prompt ← if order.prompt.isEmpty then readFile promptFile else pure order.prompt
  let c ← get
  let spec ← onSession (Assistant.generate c.environment { order with prompt })
  let text := Json.write Json.pretty (.obj spec)
  if out.isEmpty then printLine text
  else
    writeFile out text
    printLine (Files.Name.ofText out).text
  return .code 0

/-! ## Formatting -/

def formatted (v : Json) : String :=
  Json.write { Json.pretty with sortMembers := true } v ++ "\n"

def formatFile (file : String) (write check : Bool) : Run Exit := do
  let name := Name.ofText file
  let text ← readFile file
  let result := formatted (← attempt .json (Json.read text))
  if check && result != text then
    printLine name.text
    return .code 1
  else if write then
    writeFile file result
    printLine name.text
    return .code 0
  else
    printText result
    return .code 0

/-! ## The commands -/

def endpointOf (g : Given) (port : Int) : Endpoint where
  host := (g.values.get? "--host").getD "127.0.0.1"
  port := ((g.values.get? "--port").bind fun s => (Decimal.readInt s).toOption).getD port

def orderOf (g : Given) : Assistant.Order :=
  let standard : Assistant.Order := { prompt := g.value "--prompt" }
  let temperature := (g.values.get? "--temperature").bind Decimal.readFloat?
  { standard with
    provider := (g.values.get? "--provider").getD standard.provider
    baseUrl := g.value "--base-url"
    model := g.value "--model"
    apiKey := g.value "--api-key"
    temperature := (temperature.map Json.float).getD standard.temperature }

def endpointFlags : List Flag :=
  [textFlag "--host",
    { names := ["--port"], effect := .value fun s => (Decimal.readInt s).toBool }]

def orderFlags : List Flag :=
  ["--prompt", "--prompt-file", "--out", "--base-url", "--model", "--api-key"].map textFlag ++
    [{ names := ["--provider"], effect := .value ["openai", "deepseek", "ollama"].contains },
      { names := ["--temperature"], effect := .value fun s => (Decimal.readFloat? s).isSome }]

def applicationCommands : List Subcommand := [
  { name := "validate"
    help := usage "vibeweb validate [-h] paths [paths ...]"
      ["paths       Spec file(s), directory, or glob (e.g. examples/**/*.vweb.json)"] 2 []
    operands := .many
    perform g := validateAll g.operands },
  { name := "run"
    help := usage "vibeweb run [-h] [--host HOST] [--port PORT] file" ["file"] 3
      ["--host HOST", "--port PORT"]
    flags := endpointFlags
    perform g := serve g.operand (endpointOf g 8000) },
  { name := "init"
    help := usage "vibeweb init [-h] [--force] [file]" ["file"] 2 ["--force"]
    flags := [switchFlag "--force"]
    operands := .optional
    perform g := writeSample (g.operands.headD "app.vweb.json") (g.switches.contains "--force") },
  { name := "ai"
    help := usage ("vibeweb ai [-h] [--prompt PROMPT] [--prompt-file PROMPT_FILE]\n" ++
      "                  [--out OUT] [--provider \x7bopenai,deepseek,ollama\x7d]\n" ++
      "                  [--base-url BASE_URL] [--model MODEL] [--api-key API_KEY]\n" ++
      "                  [--temperature TEMPERATURE]") [] 12
      ["--prompt PROMPT       Prompt text", "--prompt-file PROMPT_FILE",
       "                      Prompt file path", "--out OUT             Output file path",
       "--provider \x7bopenai,deepseek,ollama\x7d", "--base-url BASE_URL", "--model MODEL",
       "--api-key API_KEY", "--temperature TEMPERATURE"]
    flags := orderFlags
    operands := .nothing
    perform g := generateFrom (orderOf g) (g.value "--prompt-file") (g.value "--out") },
  { name := "gallery"
    help := usage "vibeweb gallery [-h] [--root ROOT] [--host HOST] [--port PORT]" [] 3
      ["--root ROOT  Root directory (default: examples)", "--host HOST", "--port PORT"]
    flags := textFlag "--root" :: endpointFlags
    operands := .nothing
    perform g := serveGallery (g.value "--root") (endpointOf g 9000) },
  { name := "fmt"
    help := usage "vibeweb fmt [-h] [--write] [--check] file" ["file"] 2
      ["--write     Write formatted JSON back to file",
       "--check     Exit non-zero if formatting would change the file"]
    flags := [switchFlag "--write", switchFlag "--check"]
    perform g := formatFile g.operand (g.switches.contains "--write")
      (g.switches.contains "--check") }]

def applicationsHelp : String :=
  usage "vibeweb [-h] [--version] \x7bvalidate,run,init,ai,gallery,fmt\x7d ..."
    ["\x7bvalidate,run,init,ai,gallery,fmt\x7d",
     "  validate            Validate a VibeWeb spec",
     "  run                 Run a VibeWeb app",
     "  init                Create a sample spec JSON",
     "  ai                  Generate a spec using an LLM",
     "  gallery             Serve the examples homepage",
     "  fmt                 Format a spec JSON file"] 12
    ["--version             show program's version number and exit"]

def applicationTool (version : String) : List String → Run Exit :=
  runTool [{ names := ["--version"], effect := .stop }]
    (fun flag => if flag == "--version" then "vibeweb " ++ version ++ "\n" else applicationsHelp)
    applicationCommands

end Appwright.Command
