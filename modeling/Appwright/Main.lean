import Appwright.Command.Applications
import Appwright.Version.Basic

/-!
# The command line

The first argument names a tool, and the others are its arguments. The files that the arguments name
are read before the tool runs, and those that it wrote are written after it.
-/

open Appwright

namespace Appwright.Main

open Files

def settingNames : List String := [
  "VIBEWEB_ADMIN_PASSWORD", "VIBEWEB_ADMIN_USER", "VIBEWEB_AI_API_KEY", "VIBEWEB_AI_BASE_URL",
  "VIBEWEB_AI_MAX_PROMPT", "VIBEWEB_AI_MODEL", "VIBEWEB_AI_PROVIDER", "VIBEWEB_AI_REPAIR_TRIES",
  "VIBEWEB_AI_TEMPERATURE", "VIBEWEB_API_KEY", "VIBEWEB_AUDIT_LOG",
  "VIBEWEB_GALLERY_MAX_BODY_BYTES", "VIBEWEB_MAX_BODY_BYTES", "VIBEWEB_OUTBOUND_ALLOW_HOSTS",
  "VIBEWEB_RATE_LIMIT", "VIBEWEB_ZIP_VIBEPY_REF"]

def readEnvironment : IO Outbound.Environment :=
  settingNames.filterMapM fun name => return (← IO.getEnv name).map (name, ·)

/-- The names in the arguments, also those that follow an equals sign. -/
def namesIn (args : List String) : List String :=
  args.flatMap fun arg => arg :: (Text.splitChar '=' arg).drop 1

def placeOf (here : Path) (name : String) : Path :=
  let start : Path := if Text.startsWith name "/" then [""] else here
  (segments name).foldl (fun p s => if s == ".." then p.dropLast else p ++ [s]) start

/-- The folders and the files below a folder, whose entries are given. -/
partial def readBelow (place : Path) (entries : Array IO.FS.DirEntry) (files : Files) :
    IO Files := do
  let mut files := files
  for entry in entries do
    let next := place ++ [entry.fileName]
    if ← entry.path.isDir then
      files ← readBelow next (← entry.path.readDir)
        { files with folders := next :: files.folders }
    else
      let content ← IO.FS.readBinFile entry.path
      files := { files with items := (next, .file content.toList) :: files.items }
  return files

/-- Reads what a name stands for: a file, or a folder with all that is in it. A pattern stands for
the working folder. -/
def readNamed (files : Files) (name : String) : IO Files := do
  let place := placeOf files.here (if isPattern name then "." else name)
  let path := (← IO.currentDir) / Path.text place
  if ← path.isDir then
    readBelow place (← path.readDir) { files with folders := place :: files.folders }
  else if ← path.pathExists then
    let content ← IO.FS.readBinFile path
    return { files with items := (place, .file content.toList) :: files.items }
  else return files

def writeChanges (before after : Files) : IO Unit := do
  for (place, item) in after.items do
    if !before.items.contains (place, item) then
      if let .file content := item then
        IO.FS.writeBinFile (Path.text place) content.toByteArray

def runTool (tool : Command.Run Command.Exit) (files : Files) : IO UInt32 := do
  let clock := (← IO.monoMsNow).toFloat / 1000.0
  let start : Command.Console :=
    { files, environment := ← readEnvironment, session := { clock } }
  let (code, reason, c) : UInt32 × String × Command.Console := match tool start with
    | .ok (.code n) c => (n.toUInt32, "", c)
    | .ok (.text reason) c => (1, reason ++ "\n", c)
    | .error e c => (1, e.message ++ "\n", c)
  writeChanges files c.files
  IO.print c.out
  IO.eprint (c.err ++ reason)
  return code

end Appwright.Main

def main (args : List String) : IO UInt32 := do
  let here := "" :: Files.segments (← IO.currentDir).toString
  let names := Version.projectFile :: "examples" :: Main.namesIn args.tail
  let files ← names.foldlM Main.readNamed { here }
  match args with
  | "vibelang" :: args => Main.runTool (Command.programTool args) files
  | "vibeweb" :: args =>
    let version := Version.current { files, program := here }
    Main.runTool (Command.applicationTool version args) files
  | _ => return 2
