import Appwright.Command.Console

/-!
# The tool for programs

Commands that check, compile, run and show programs.
-/

namespace Appwright.Command

open Program

def loadProgram (file : String) : Run (Entries Node) := do
  let text ← readFile file
  attempt .program (load file text)

def loadInputs (file : String) : Run Node := do
  if file.isEmpty then return .null
  let text ← readFile file
  match ← attempt .json (Json.read text) with
  | .obj members => return .obj (Node.ofMembers members)
  | _ => throw .inputsKind

def reportJson (report : Trace.Report Target.Data) : Except Target.Fault Json := do
  let report ← report.tryMap (Target.Data.toJson {})
  return report.toJson id

def execute (file inputs : String) (reports : Bool) : Run Unit := do
  let given ← loadInputs inputs
  let program ← loadProgram file
  let c ← get
  let outcome := Program.execute (.obj program) given c.session.clock c.environment
  let result ← attempt .run outcome.result
  match reports, outcome.report with
  | true, some report =>
    let json ← attempt .unwritable (reportJson report)
    printLine (Json.write Json.pretty json)
  | _, _ => printLine (← attempt .unwritable result.display.tell)

def printProgram (file : String) : Run Unit := do
  let program ← loadProgram file
  let json ← attempt .unwritable
    ((Target.Data.ofNode (.obj program)).toJson { anyLength := true })
  printLine (Json.write Json.pretty json)

def validateProgram (file : String) : Run Unit := do
  attempt .check (check (← loadProgram file))
  printLine "OK"

def compileProgram (file out : String) : Run Unit := do
  let source ← attempt .compile (Program.compile (← loadProgram file))
  if out.isEmpty then printText source else writeFile out source

/-- A command that takes a file and ends well unless it fails. -/
def onFile (name flagUsage : String) (gap : Nat) (flags : List Flag) (options : List String)
    (run : Given → Run Unit) : Subcommand where
  name
  help := usage ("vibelang " ++ name ++ " [-h] " ++ flagUsage ++ "file") ["file"] gap options
  flags
  perform given := do
    run given
    return .code 0

def inputsHelp : String :=
  "--inputs INPUTS  JSON file with input overrides"

def programCommands : List Subcommand := [
  onFile "validate" "" 2 [] [] fun g => validateProgram g.operand,
  onFile "compile" "[--out OUT] " 2 [textFlag "--out"] ["--out OUT"] fun g =>
    compileProgram g.operand (g.value "--out"),
  onFile "run" "[--inputs INPUTS] [--json] " 7 [textFlag "--inputs", switchFlag "--json"]
    [inputsHelp, "--json           Print execution report JSON"] fun g =>
    execute g.operand (g.value "--inputs") (g.switches.contains "--json"),
  onFile "report" "[--inputs INPUTS] " 7 [textFlag "--inputs"] [inputsHelp] fun g =>
    execute g.operand (g.value "--inputs") true,
  onFile "parse" "" 2 [] [] fun g => printProgram g.operand]

def programsHelp : String :=
  usage "vibelang [-h] \x7bvalidate,compile,run,report,parse\x7d ..."
    ["\x7bvalidate,compile,run,report,parse\x7d",
     "  validate            Validate a VibeLang IR file",
     "  compile             Compile IR to Python source",
     "  run                 Run a VibeLang IR file",
     "  report              Run and print execution report JSON",
     "  parse               Parse .vbl to JSON IR"] 12 []

def programTool : List String → Run Exit :=
  runTool [] (fun _ => programsHelp) programCommands

end Appwright.Command
