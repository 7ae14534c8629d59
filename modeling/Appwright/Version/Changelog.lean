import Appwright.Version.Basic

/-!
# Versions and the change log

A change log has a heading for each version and one for what is not released. A check compares them
with the version of the project.
-/

namespace Appwright.Version

open Text

/-! ## Semantic versions -/

/-- A number at the front: a zero, or digits that do not start with one. Digits after the first may
be of any script. -/
def takeNumber? : List Char → Option (List Char)
  | '0' :: cs => some cs
  | c :: cs => if '1' ≤ c && c ≤ '9' then some (cs.dropWhile isDecimal) else none
  | [] => none

def afterPoint? : List Char → Option (List Char)
  | '.' :: cs => some cs
  | _ => none

/-- Whether characters may follow the three numbers of a version. -/
def isSuffix : List Char → Bool
  | [] => true
  | mark :: cs =>
    (mark == '-' || mark == '+') && !cs.isEmpty &&
      cs.all fun c => c.isAlphanum || c == '.' || c == '-'

def isSemantic (version : String) : Bool :=
  let suffix? : Option (List Char) := do
    let cs ← afterPoint? (← takeNumber? version.toList)
    let cs ← afterPoint? (← takeNumber? cs)
    takeNumber? cs
  suffix?.any isSuffix

/-! ## Headings -/

/-- What follows the first blanks, of which there is at least one. -/
def afterBlanks? : List Char → Option (List Char)
  | c :: cs => if isBlank c then some (cs.dropWhile isBlank) else none
  | [] => none

/-- Whether characters are a date: four, two and two digits. -/
def isDate (cs : List Char) : Bool :=
  match cs with
  | [a, b, c, d, '-', e, f, '-', g, h] => [a, b, c, d, e, f, g, h].all isDecimal
  | _ => false

/-- Whether characters may follow the name in a heading: nothing, or a dash and a date. -/
def endsHeading (cs : List Char) : Bool :=
  match afterBlanks? cs with
  | some ('-' :: rest) => (afterBlanks? rest).any isDate
  | _ => cs.isEmpty

def heading? (line : String) : Option String := do
  let rest ← afterText? "##" (trim line)
  match ← afterBlanks? rest.toList with
  | '[' :: cs =>
    let name := cs.takeWhile (· != ']')
    match cs.dropWhile (· != ']') with
    | _ :: rest =>
      if !name.isEmpty && endsHeading rest then some (trim (String.ofList name)) else none
    | [] => none
  | _ => none

def headings (log : String) : List String :=
  (lines log).filterMap heading?

/-! ## The check -/

inductive Problem where
  | noProject
  | noVersion
  | unreadable (cause : Utf8Error)
  | notSemantic (version : String)
  | noLog
  | noUnreleased
  | noEntry (version : String)
  | wrongOrder
deriving Repr

def Problem.text : Problem → String
  | noProject => "Missing pyproject.toml"
  | noVersion =>
    "Failed to read version from pyproject.toml: Could not read version from pyproject.toml"
  | unreadable cause => "Failed to read version from pyproject.toml: " ++ cause.message
  | notSemantic version =>
    "pyproject.toml version is not valid SemVer: " ++ quoted version ++
      " (expected MAJOR.MINOR.PATCH[...])"
  | noLog => "Missing CHANGELOG.md"
  | noUnreleased => "CHANGELOG.md must include '## [Unreleased]'"
  | noEntry version => "CHANGELOG.md must include an entry for version " ++ quoted version
  | wrongOrder => "CHANGELOG.md: version entry must come after [Unreleased]"

def ofEither? (document : String) : Option String :=
  (ofDocument? document).or ((settings document).find? fun v => !v.isEmpty)

def readProject (content : Option (List UInt8)) : Except Problem String :=
  match content with
  | none => .error .noProject
  | some content =>
    match Files.textOf content with
    | .error cause => .error (.unreadable cause)
    | .ok document => (ofEither? document).elim (.error .noVersion) .ok

def logProblems (version : Option String) (log : String) : List Problem :=
  if log.isEmpty then []
  else
    let names := headings log
    let released := names.contains "Unreleased"
    let missing := version.filter fun v => !names.contains v
    let early := version.filter fun v =>
      names.contains v && released && names.idxOf v < names.idxOf "Unreleased"
    (if released then [] else [.noUnreleased]) ++ missing.toList.map .noEntry ++
      early.toList.map fun _ => .wrongOrder

/-- What is wrong with a project, given the contents of its file and of its change log. -/
def problems (project log : Option (List UInt8)) : Except Utf8Error (List Problem) := do
  let (version, found) : Option String × List Problem := match readProject project with
    | .ok version => (some version, if isSemantic version then [] else [.notSemantic version])
    | .error problem => (none, [problem])
  match log with
  | none => return found ++ [.noLog]
  | some content =>
    let log ← Files.textOf content
    return found ++ logProblems version log

end Appwright.Version
