import Appwright.Files.Basic

/-!
# Finding files

The places that a pattern of a path stands for. In a name, `*` stands for any characters, `?` for one
character, and brackets for one character of a set, or for one outside of it after `!`; `**` stands
for any number of folders.
-/

namespace Appwright.Files

inductive Piece where
  | char (c : Char)
  | one
  | any
  /-- One character in some range, or in none. -/
  | set (inside : Bool) (ranges : List (Char × Char))
deriving DecidableEq, Repr

def rangesOf : List Char → List (Char × Char)
  | low :: '-' :: high :: cs =>
    if high < low then rangesOf cs else (low, high) :: rangesOf cs
  | c :: cs => (c, c) :: rangesOf cs
  | [] => []

/-- The set that ranges make. If the mark of an outside comes first among them, it is one. -/
def Piece.ofRanges : List (Char × Char) → Piece
  | ('!', '!') :: ranges => .set false ranges
  | ranges => .set true ranges

/-- The inside of brackets and what follows them. A closing bracket at the front is one of the
characters. -/
def takeSet? : List Char → Option (List Char × List Char)
  | [] => none
  | c :: cs =>
    let body := cs.takeWhile (· != ']')
    match cs.dropWhile (· != ']') with
    | [] => none
    | _ :: rest => some (c :: body, rest)

def readSet? : List Char → Option (Piece × List Char)
  | '!' :: cs => (takeSet? cs).map fun (body, rest) => (.set false (rangesOf body), rest)
  | cs => (takeSet? cs).map fun (body, rest) => (.ofRanges (rangesOf body), rest)

def readPieces : Nat → List Char → List Piece
  | 0, _ => []
  | _, [] => []
  | n + 1, '*' :: cs => .any :: readPieces n cs
  | n + 1, '?' :: cs => .one :: readPieces n cs
  | n + 1, '[' :: cs =>
    match readSet? cs with
    | some (piece, rest) => piece :: readPieces n rest
    | none => .char '[' :: readPieces n cs
  | n + 1, c :: cs => .char c :: readPieces n cs

def piecesOf (pattern : String) : List Piece :=
  let cs := pattern.toList
  readPieces cs.length cs

def Piece.accepts : Piece → Char → Bool
  | .char d, c => c == d
  | .one, _ | .any, _ => true
  | .set inside ranges, c => ranges.any (fun r => r.1 ≤ c && c ≤ r.2) == inside

def fits (pieces : List Piece) (cs : List Char) : Bool :=
  match pieces, cs with
  | [], cs => cs.isEmpty
  | .any :: pieces, [] => fits pieces []
  | .any :: pieces, c :: cs => fits pieces (c :: cs) || fits (.any :: pieces) cs
  | _ :: _, [] => false
  | piece :: pieces, c :: cs => piece.accepts c && fits pieces cs
termination_by pieces.length + cs.length

def isPattern (s : String) : Bool :=
  s.toList.any fun c => c == '*' || c == '?' || c == '['

/-- Whether a pattern stands for a name. Names with a dot in front are hidden from patterns without
one. -/
def fitsName (pattern name : String) : Bool :=
  (name.toList.head? != some '.' || pattern.toList.head? == some '.') &&
    fits (piecesOf pattern) name.toList

/-! ## Places -/

def isBelow (folder p : Path) : Bool :=
  folder.length < p.length && p.take folder.length == folder

def steps (folder p : Path) : List Path :=
  (List.range (p.length - folder.length)).map fun n => p.take (folder.length + n + 1)

def comparePaths : Path → Path → Ordering
  | [], [] => .eq
  | [], _ => .lt
  | _, [] => .gt
  | a :: p, b :: q => (Text.compare a b).then (comparePaths p q)

def below (files : Files) (folder : Path) : List Path :=
  let places := (files.items.map Prod.fst ++ files.folders).filter (isBelow folder)
  (places.flatMap (steps folder)).eraseDups.mergeSort fun p q => comparePaths p q != .gt

def belowEnding (files : Files) (folder : Path) (ending : String) : List Path :=
  (files.below folder).filter fun p => Text.endsWith (p.getLastD "") ending

def leadsToFolder (files : Files) (p : Path) : Bool :=
  (files.walk linkLimit [] p).toOption.any files.isFolderAt

def isPlace (files : Files) (p : Path) : Bool :=
  files.isFolderAt p || (files.item? p).isSome

def belowUnhidden (files : Files) (folder : Path) : List Path :=
  (files.below folder).filter fun p =>
    (p.drop folder.length).all fun name => name.toList.head? != some '.'

def expandName (files : Files) (foldersOnly : Bool) (pattern : String) (folder : Path) :
    List Path :=
  let found :=
    if pattern == "**" then
      if files.isFolderAt folder then folder :: files.belowUnhidden folder else []
    else if isPattern pattern then
      ((files.list folder).filter (fitsName pattern)).map fun name => folder ++ [name]
    else if pattern == ".." then [folder.dropLast]
    else [folder ++ [pattern]].filter files.isPlace
  if foldersOnly then found.filter files.leadsToFolder else found

def expandFrom (files : Files) (foldersOnly : Bool) : List String → Path → List Path
  | [], folder => [folder]
  | name :: rest, folder =>
    (files.expandName (foldersOnly || !rest.isEmpty) name folder).flatMap
      (expandFrom files foldersOnly rest)

/-- The places that a pattern stands for. If `**` comes first, the working folder itself is none of
them. -/
def expand (files : Files) (pattern : String) : List Path :=
  let (folder, names) := files.origin (Name.ofText pattern)
  let found := files.expandFrom (Text.endsWith pattern "/") names folder
  if Text.startsWith pattern "**" then found.filter (· != files.here) else found

/-- The files that a written name stands for: the file itself, the files in a folder that have an
ending, or those that a pattern stands for. -/
def collect (files : Files) (ending written : String) : Except Error (List Path) := do
  let ofPlace (p : Path) : List Path :=
    match files.walk linkLimit [] p with
    | .ok q => if files.isFolderAt q then files.belowEnding q ending else [p]
    | .error _ => [p]
  let n := Name.ofText written
  if ← files.isThere n then return (files.locate n).toOption.toList.flatMap ofPlace
  else if isPattern written then return (files.expand written).flatMap ofPlace
  else return []

end Appwright.Files
