import Appwright.Json.Writer
import Appwright.Outbound.Policy

/-!
# Bundles

A bundle is what is handed out for a specification: a folder with the specification itself, a
description, and what is needed to run the application.
-/

namespace Appwright.Gallery

/-! ## Slugs -/

def slugWords (name : String) : List (List Char) :=
  (Text.runsFrom Char.isAlphanum [] name.toList).map fun word => word.map Char.toLower

def slug (name : String) : String :=
  match slugWords name with
  | [] => "vibeweb_app"
  | words => String.ofList (['-'].intercalate words)

/-! ## Bundles -/

structure Entry where
  path : String
  text : String
  executable : Bool := false
deriving DecidableEq, Repr

structure Bundle where
  filename : String
  entries : List Entry
deriving DecidableEq, Repr

/-- Why there is no bundle of a specification: a value of a wrong kind lacks an operation. -/
structure BundleError where
  kind : String
  operation : String
deriving DecidableEq, Repr

def BundleError.message (e : BundleError) : String :=
  "'" ++ e.kind ++ "' object has no attribute '" ++ e.operation ++ "'"

def isPlainVersion (version : String) : Bool :=
  let parts := Text.splitAtElem '.' version.toList
  parts.length == 3 && parts.all fun digits => !digits.isEmpty && digits.all Char.isDigit

/-- The revision that an application is bound to: the setting, or the tag of a plain version. -/
def revision (env : Outbound.Environment) (version : String) : String :=
  let own := Text.trim ((env.get? "VIBEWEB_ZIP_VIBEPY_REF").getD "")
  if !own.isEmpty then own
  else if isPlainVersion version then "v" ++ version
  else "main"

def readme (name version : String) : String :=
  "# " ++ name ++ "\n\n" ++
  "Generated by VibeWeb Gallery (VibePy " ++ version ++ ").\n\n" ++
  "One-command run:\n" ++
  "```bash\n" ++
  "bash run.sh\n" ++
  "```\n" ++
  "\n" ++
  "macOS double-click:\n" ++
  "- `run.command`\n" ++
  "\n" ++
  "Security (recommended):\n" ++
  "- Copy `.env.example` to `.env` and set strong values.\n"

def runScript : String :=
  "#!/usr/bin/env bash\n" ++
  "set -euo pipefail\n" ++
  "APP_DIR=\"$(cd \"$(dirname \"$\x7bBASH_SOURCE[0]\x7d\")\" && pwd)\"\n" ++
  "cd \"$APP_DIR\"\n" ++
  "if [ -f .env ]; then\n" ++
  "  set -a\n" ++
  "  . .env\n" ++
  "  set +a\n" ++
  "fi\n" ++
  "if [ -n \"$\x7bVIBEWEB_AUDIT_LOG:-\x7d\" ]; then\n" ++
  "  mkdir -p \"$(dirname \"$VIBEWEB_AUDIT_LOG\")\"\n" ++
  "fi\n" ++
  "if [ ! -d .venv ]; then\n" ++
  "  python3 -m venv .venv\n" ++
  "fi\n" ++
  "source .venv/bin/activate\n" ++
  "python3 -m pip install --upgrade pip\n" ++
  "python3 -m pip install -r requirements.txt\n" ++
  "python3 -m vibeweb run app.vweb.json --host 127.0.0.1 --port 8000\n"

def clickScript : String :=
  "#!/usr/bin/env bash\n" ++
  "cd \"$(dirname \"$0\")\"\n" ++
  "bash run.sh\n"

def promptScript : String :=
  "@echo off\r\n" ++
  "if not exist .venv (python -m venv .venv)\r\n" ++
  "call .venv\\Scripts\\activate\r\n" ++
  "python -m pip install --upgrade pip\r\n" ++
  "python -m pip install -r requirements.txt\r\n" ++
  "python -m vibeweb run app.vweb.json --host 127.0.0.1 --port 8000\r\n"

def settingsExample : String :=
  "VIBEWEB_ADMIN_USER=admin\n" ++
  "VIBEWEB_ADMIN_PASSWORD=change_me\n" ++
  "VIBEWEB_API_KEY=change_me\n" ++
  "VIBEWEB_RATE_LIMIT=120\n" ++
  "VIBEWEB_MAX_BODY_BYTES=1048576\n" ++
  "VIBEWEB_AUDIT_LOG=.logs/vibeweb-audit.log\n"

def requirements (revision : String) : String :=
  "vibepy @ git+https://github.com/johunsang/vibePy@" ++ revision ++ "\n"

def entriesOf (name version revision : String) (spec : Json.Members) : List Entry :=
  let folder := slug name ++ "/"
  [ { path := folder ++ "app.vweb.json", text := Json.write Json.pretty (.obj spec) },
    { path := folder ++ "README.md", text := readme name version },
    { path := folder ++ "run.sh", text := runScript, executable := true },
    { path := folder ++ "run.command", text := clickScript, executable := true },
    { path := folder ++ "run.bat", text := promptScript },
    { path := folder ++ "requirements.txt", text := requirements revision },
    { path := folder ++ ".env.example", text := settingsExample },
    { path := folder ++ "VIBEPY_REF.txt", text := revision ++ "\n" } ]

def bundle (env : Outbound.Environment) (version : String) (spec : Json.Members) :
    Except BundleError Bundle :=
  match (spec.get? "name").getD (.str "vibeweb_app") with
  | .str name =>
    .ok {
      filename := slug name ++ ".zip"
      entries := entriesOf name version (revision env version) spec }
  | v => .error ⟨v.kindName, "strip"⟩

end Appwright.Gallery
