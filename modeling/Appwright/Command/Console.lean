import Appwright.Assistant.Generate
import Appwright.Command.Arguments
import Appwright.Files.Find
import Appwright.Program.Execute
import Appwright.Server.Basic

/-!
# What commands touch

A command reads and writes files, prints, and may call services. It ends with a code, or with a text
that says why it ended, or it fails.
-/

namespace Appwright.Command

/-! ## Commands -/

structure Console where
  files : Files := {}
  environment : Outbound.Environment := []
  session : Outbound.Session := {}
  out : String := ""
  err : String := ""
deriving Repr

inductive Exit where
  | code (n : Nat)
  | text (reason : String)
deriving DecidableEq, Repr

/-- The code for arguments that a command does not take. -/
def usageExit : Exit := .code 2

inductive PortError where
  | range
  | tooLarge
  | tooSmall
  | beyondWord
deriving DecidableEq, Repr

def PortError.message : PortError → String
  | range => "bind(): port must be 0-65535."
  | tooLarge => "signed integer is greater than maximum"
  | tooSmall => "signed integer is less than minimum"
  | beyondWord => "Python int too large to convert to C long"

def checkPort (port : Int) : Except PortError Unit :=
  if port < -9223372036854775808 || 9223372036854775807 < port then .error .beyondWord
  else if 2147483647 < port then .error .tooLarge
  else if port < -2147483648 then .error .tooSmall
  else if port < 0 || 65535 < port then .error .range
  else .ok ()

inductive Failure where
  | files (cause : Files.Error)
  | json (cause : Json.ReadError)
  | inputsKind
  | program (cause : Program.LoadError)
  | check (cause : Program.CheckError)
  | compile (cause : Program.CompileError)
  | run (cause : Program.RunError)
  /-- A value cannot be written. -/
  | unwritable (cause : Target.Fault)
  | spec (cause : Spec.LoadError)
  | specPart (cause : Spec.Error)
  | start (cause : Server.StartError)
  | setting (cause : Decimal.IntError)
  | port (cause : PortError)
  | generate (cause : Assistant.GenerateError)
deriving Repr

def Failure.message : Failure → String
  | files cause => cause.message
  | json cause => cause.message
  | inputsKind => "Inputs JSON must be an object"
  | program cause => cause.message
  | check cause => cause.message
  | compile cause => cause.message
  | run cause => cause.message
  | unwritable cause => cause.message
  | spec cause => cause.message
  | specPart cause => cause.message
  | start cause => cause.message
  | setting cause => cause.message
  | port cause => cause.message
  | generate cause => cause.message

/-- A command at work. What it did before it fails stays done. -/
abbrev Run := EStateM Failure Console

def printText (text : String) : Run Unit :=
  modify fun c => { c with out := c.out ++ text }

def printLine (line : String) : Run Unit :=
  printText (line ++ "\n")

def complain (line : String) : Run Unit :=
  modify fun c => { c with err := c.err ++ line ++ "\n" }

def readFile (name : String) : Run String := do
  let c ← get
  attempt .files (c.files.readText (.ofText name))

def writeFile (name content : String) : Run Unit := do
  let c ← get
  let files ← attempt .files (c.files.writeText (.ofText name) content)
  set { c with files }

def helpFlag : Flag where
  names := ["-h", "--help"]
  effect := .stop

def textFlag (name : String) : Flag where
  names := [name]
  effect := .value fun _ => true

def switchFlag (name : String) : Flag where
  names := [name]
  effect := .switch

/-! ## Tools -/

def rows (texts : List String) : String :=
  String.join (texts.map fun text => "  " ++ text ++ "\n")

/-- A usage text: how to call, the arguments by place and the options. The first option asks for the
text itself and has `gap` blanks before what it does. -/
def usage (call : String) (positional : List String) (gap : Nat) (options : List String) : String :=
  "usage: " ++ call ++ "\n\n" ++
    (if positional.isEmpty then "" else "positional arguments:\n" ++ rows positional ++ "\n") ++
    "options:\n" ++
    rows (("-h, --help" ++ Text.times gap " " ++ "show this help message and exit") :: options)

/-- A command of a tool: its name, its usage text, what it takes, and what it does with that. -/
structure Subcommand where
  name : String
  help : String
  flags : List Flag := []
  operands : Operands := .one
  perform : Given → Run Exit

def printHelp (text : String) : Run Exit := do
  printText text
  return .code 0

/-- Runs the command that the arguments of a tool name. What is printed for an option that stops the
tool itself is given. -/
def runTool (own : List Flag) (stop : String → String) (commands : List Subcommand)
    (args : List String) : Run Exit :=
  match Form.read { flags := helpFlag :: own, operands := .rest } args with
  | .wrong => return usageExit
  | .stopped flag => printHelp (stop flag)
  | .done given extras =>
    match commands.find? fun c => c.name == given.operand with
    | none => return usageExit
    | some c =>
      match Form.read { flags := helpFlag :: c.flags, operands := c.operands }
          given.operands.tail with
      | .wrong => return usageExit
      | .stopped _ => printHelp c.help
      | .done given more =>
        if extras.isEmpty && more.isEmpty then c.perform given else return usageExit

end Appwright.Command
