import Appwright.Text.Basic
import Appwright.Text.Utf8

/-!
# Files

A tree of files and symbolic links, as a list of places. A folder is there if it is listed or if
something lies in it. Names are looked up from a working folder, and links are followed on the way,
up to a limit.
-/

namespace Appwright

open Text

namespace Files

/-- A place: the names from the top of the tree down. -/
abbrev Path := List String

inductive Item where
  | file (content : List UInt8)
  | link (target : String)
deriving DecidableEq, Repr

def Path.text (p : Path) : String :=
  if p == [""] then "/" else "/".intercalate p

def segments (s : String) : List String :=
  (splitChar '/' s).filter fun name => !name.isEmpty && name != "."

structure Name where
  /-- The slashes that it starts with, if it starts from the top. -/
  lead : String := ""
  parts : List String
deriving DecidableEq, Repr

/-- Reads a written name. Two slashes in front are kept, and more are one. -/
def Name.ofText (s : String) : Name :=
  let lead :=
    if startsWith s "//" && !startsWith s "///" then "//"
    else if startsWith s "/" then "/" else ""
  { lead, parts := segments s }

def Name.text (n : Name) : String :=
  if n.lead.isEmpty && n.parts.isEmpty then "." else n.lead ++ "/".intercalate n.parts

end Files

structure Files where
  items : List (Files.Path × Files.Item) := []
  folders : List Files.Path := []
  here : Files.Path := []
deriving Repr

namespace Files

inductive Cause where
  | missing
  | notFolder
  | isFolder
  | nameTooLong
  | tooManyLinks
deriving DecidableEq, Repr

def Cause.text : Cause → String
  | missing => "[Errno 2] No such file or directory"
  | notFolder => "[Errno 20] Not a directory"
  | isFolder => "[Errno 21] Is a directory"
  | nameTooLong => "[Errno 36] File name too long"
  | tooManyLinks => "[Errno 40] Too many levels of symbolic links"

inductive Error where
  | place (cause : Cause) (name : String)
  | text (cause : Utf8Error)
  | linkLoop (path : Path)
deriving Repr

def Error.message : Error → String
  | place cause name => cause.text ++ ": " ++ quoted name
  | text cause => cause.message
  | linkLoop path => "Symlink loop from " ++ quoted path.text

def item? (files : Files) (p : Path) : Option Item :=
  (files.items.find? fun e => e.1 == p).map Prod.snd

def isFolderAt (files : Files) (p : Path) : Bool :=
  p.isEmpty || files.here.take p.length == p ||
    files.folders.any (fun f => f.take p.length == p) ||
    files.items.any (fun e => p.length < e.1.length && e.1.take p.length == p)

def origin (files : Files) (n : Name) : Path × List String :=
  if n.lead.isEmpty then (files.here, n.parts) else ([""], n.parts)

def linkOrigin (folder : Path) (target : String) : Path :=
  if startsWith target "/" then [""] else folder

def longestName : Nat := 255

def linkLimit : Nat := 40

def walk (files : Files) (links : Nat) (p : Path) (names : List String) : Except Cause Path :=
  match names with
  | [] => .ok p
  | name :: rest =>
    if !files.isFolderAt p then .error .notFolder
    else if name == ".." then walk files links p.dropLast rest
    else if longestName < (encode name).length then .error .nameTooLong
    else
      let next := p ++ [name]
      match files.item? next with
      | some (.link target) =>
        match links with
        | 0 => .error .tooManyLinks
        | links + 1 => walk files links (linkOrigin p target) (segments target ++ rest)
      | some (.file _) => if rest.isEmpty then .ok next else .error .notFolder
      | none => if files.isFolderAt next then walk files links next rest else .error .missing
termination_by (links, names.length)

def locate (files : Files) (n : Name) : Except Cause Path :=
  let (p, names) := files.origin n
  files.walk linkLimit p names

def isThere (files : Files) (n : Name) : Except Error Bool :=
  match files.locate n with
  | .ok _ => .ok true
  | .error .nameTooLong => .error (.place .nameTooLong n.text)
  | .error _ => .ok false

def isFolder (files : Files) (n : Name) : Bool :=
  (files.locate n).toOption.any files.isFolderAt

/-- The bytes of the file that names lead to from a place, under the text it is asked for by. -/
def bytesFrom (files : Files) (text : String) (p : Path) (names : List String) :
    Except Error (List UInt8) :=
  match files.walk linkLimit p names with
  | .error cause => .error (.place cause text)
  | .ok p =>
    match files.item? p with
    | some (.file content) => .ok content
    | _ => .error (.place .isFolder text)

def readBytes (files : Files) (n : Name) : Except Error (List UInt8) :=
  let (p, names) := files.origin n
  files.bytesFrom n.text p names

def lineFeeds : List Char → List Char
  | '\r' :: '\n' :: cs => '\n' :: lineFeeds cs
  | '\r' :: cs => '\n' :: lineFeeds cs
  | c :: cs => c :: lineFeeds cs
  | [] => []

def withLineFeeds (s : String) : String :=
  String.ofList (lineFeeds s.toList)

def textOf (content : List UInt8) : Except Utf8Error String :=
  (decode content).map withLineFeeds

def readText (files : Files) (n : Name) : Except Error String := do
  (textOf (← files.readBytes n)).mapError .text

def readPlace (files : Files) (p : Path) : Except Error String := do
  (textOf (← files.bytesFrom p.text [] p)).mapError .text

/-- The place of a name with its links followed as far as there is something to follow. The second
part tells whether no link led back to itself; if one did, the names after it are left as they
are. -/
def resolveFrom (files : Files) (links : Nat) (passed : List Path) (p : Path)
    (names : List String) : Path × Bool :=
  match names with
  | [] => (p, true)
  | name :: rest =>
    if name == ".." then resolveFrom files links passed p.dropLast rest
    else
      let next := p ++ [name]
      match files.item? next with
      | some (.link target) =>
        match links, passed.contains next with
        | links + 1, false =>
          match resolveFrom files links (next :: passed) (linkOrigin p target)
            (segments target) with
          | (p, false) => (p ++ rest, false)
          | (p, true) => resolveFrom files (links + 1) passed p rest
        | _, _ => (next ++ rest, false)
      | _ => resolveFrom files links passed next rest
termination_by (links, names.length)

def normal (p : Path) : Path :=
  p.foldl (fun done name => if name == ".." then done.dropLast else done ++ [name]) []

/-- The place of a written name with its links followed. It need not be there, but links that lead
back to themselves are an error. -/
def resolve (files : Files) (n : Name) : Except Error Path :=
  let (p, names) := files.origin n
  let place := normal (files.resolveFrom files.items.length [] p names).1
  match files.walk linkLimit [] place with
  | .error .tooManyLinks => .error (.linkLoop place)
  | _ => .ok place

def put (files : Files) (p : Path) (content : List UInt8) : Files :=
  if (files.item? p).isSome then
    { files with items := files.items.map fun e => if e.1 == p then (p, .file content) else e }
  else { files with items := files.items ++ [(p, .file content)] }

def writeText (files : Files) (n : Name) (content : String) : Except Error Files :=
  match files.locate n with
  | .ok p =>
    if files.isFolderAt p then .error (.place .isFolder n.text)
    else .ok (files.put p (encode content))
  | .error .missing =>
    let (p, names) := files.origin n
    let place := (files.resolveFrom files.items.length [] p names).1
    if files.isFolderAt place.dropLast then .ok (files.put place (encode content))
    else .error (.place .missing n.text)
  | .error cause => .error (.place cause n.text)

def list (files : Files) (p : Path) : List String :=
  let places := files.items.map Prod.fst ++ files.folders
  let names := places.filterMap fun q =>
    if p.length < q.length && q.take p.length == p then q[p.length]? else none
  names.eraseDups.mergeSort fun a b => Text.compare a b != .gt

end Files

end Appwright
