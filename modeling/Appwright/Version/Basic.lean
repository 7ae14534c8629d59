import Appwright.Files.Basic
import Appwright.Toml.Reader

/-!
# The version of a project

A project says its version in the table `project` of its file `pyproject.toml`. There are two ways to
find it: the file is read as TOML, or its lines are looked through for the header of the table and a
line that sets the version. A version is never blank.
-/

namespace Appwright.Version

open Text Files

/-- A text without blanks around it, unless nothing is left. -/
def unlessBlank (s : String) : Option String :=
  let s := trim s
  if s.isEmpty then none else some s

def ofDocument? (document : String) : Option String :=
  match (Toml.read? document).bind (Entries.get? "project") with
  | some (.table project) =>
    match Entries.get? "version" project with
    | some (.text s) => unlessBlank s
    | _ => none
  | _ => none

/-! ## Looking through lines -/

def header? (line : String) : Option String :=
  match (trim line).toList with
  | '[' :: cs =>
    let name := cs.takeWhile (· != ']')
    if !name.isEmpty && cs.dropWhile (· != ']') == [']'] then
      some (trim (String.ofList name))
    else none
  | _ => none

def quotedText? : List Char → Option String
  | quote :: cs =>
    let isQuote (c : Char) : Bool := c == '"' || c == '\''
    let body := cs.takeWhile fun c => !isQuote c
    if isQuote quote && !body.isEmpty && cs.drop body.length == [quote] then
      some (String.ofList body)
    else none
  | [] => none

def setting? (line : String) : Option String := do
  let rest ← afterText? "version" (trim line)
  match rest.toList.dropWhile isBlank with
  | '=' :: cs => (quotedText? (cs.dropWhile isBlank)).map trim
  | _ => none

def isIdle (line : String) : Bool :=
  match (trim line).toList with
  | [] | '#' :: _ => true
  | _ => false

/-- The versions that lines set, in order; the first argument tells whether the table `project` is
open. -/
def settingsFrom : Bool → List String → List String
  | _, [] => []
  | inProject, line :: rest =>
    if isIdle line then settingsFrom inProject rest
    else
      match header? line with
      | some name => settingsFrom (name == "project") rest
      | none =>
        match inProject, setting? line with
        | true, some version => version :: settingsFrom inProject rest
        | _, _ => settingsFrom inProject rest

/-- The versions that the lines of a document set, in order. -/
def settings (document : String) : List String :=
  settingsFrom false (lines document)

/-- The version that the first such line of a document sets. -/
def ofLines? (document : String) : Option String :=
  (settings document).head?.bind unlessBlank

/-! ## The version in use -/

def projectFile : String := "pyproject.toml"

structure Place where
  /-- The version that was installed. -/
  installed : Option String := none
  files : Files := {}
  /-- Where the program lies. -/
  program : Path := []
  /-- Whether files can be read as TOML. -/
  readsToml : Bool := true
deriving Repr

/-- A place and the folders above it, from the inside out. -/
def outward (p : Path) : List Path :=
  (List.range p.length).map fun n => p.take (p.length - n)

def liesIn (files : Files) (folder : Path) (name : String) : Bool :=
  (files.walk linkLimit [] (folder ++ [name])).toOption.any fun p => !files.isFolderAt p

def projectRoot? (place : Place) : Option Path :=
  (outward place.program).find? fun folder => liesIn place.files folder projectFile

def ofProject? (place : Place) (root : Path) : Option String := do
  let document ← (place.files.readPlace (root ++ [projectFile])).toOption
  if place.readsToml then ofDocument? document else ofLines? document

/-- The version in use: what was installed, else what the project says. -/
def current (place : Place) : String :=
  match place.installed with
  | some version => version
  | none => ((projectRoot? place).bind (ofProject? place)).getD "0.0.0+unknown"

end Appwright.Version
