import Appwright.Entries
import Appwright.Text.Casing
import Appwright.Text.Utf8

/-!
# Forms in parts

The body of a form can come in parts between boundary lines. A part has headers and a content; its
disposition gives the name of the field. Bytes are taken as the characters of the same number until
the content of a part is read in its character set.
-/

namespace Appwright.Gallery.Multipart

open Text

/-! ## Lines and headers -/

def linesFrom (current : List Char) : List Char → List (List Char)
  | [] => if current.isEmpty then [] else [current.reverse]
  | '\r' :: '\n' :: cs => (current.reverse ++ ['\r', '\n']) :: linesFrom [] cs
  | c :: cs =>
    if c == '\r' || c == '\n' then (current.reverse ++ [c]) :: linesFrom [] cs
    else linesFrom (c :: current) cs

def isEnd (c : Char) : Bool :=
  c == '\r' || c == '\n'

def dropEnd (cs : List Char) : List Char :=
  match cs.reverse with
  | '\n' :: '\r' :: rest => rest.reverse
  | c :: rest => if isEnd c then rest.reverse else cs
  | [] => []

inductive Mark where
  | part
  | last
deriving DecidableEq, Repr

def mark? (boundary : String) (line : List Char) : Option Mark := do
  let rest ← after? ("--" ++ boundary).toList (dropEnd line)
  let isSpace (c : Char) : Bool := c == ' ' || c == '\t'
  match after? ['-', '-'] rest with
  | some rest => if rest.all isSpace then some .last else none
  | none => if rest.all isSpace then some .part else none

def isHeaderLine : List Char → Bool
  | ' ' :: _ | '\t' :: _ => true
  | cs =>
    let isNameChar (c : Char) : Bool := 33 ≤ c.toNat && c.toNat ≤ 126 && c != ':'
    (cs.dropWhile isNameChar).head? == some ':' || (after? "From ".toList cs).isSome

/-- The headers that lines give. A line that starts with a blank goes on with the one before. -/
def headersFrom (done : Entries String) : List (List Char) → Entries String
  | [] => done
  | line :: rest =>
    let text := String.ofList (line.filter fun c => !isEnd c)
    match line with
    | ' ' :: _ | '\t' :: _ =>
      match done.reverse with
      | (name, value) :: before => headersFrom (before.reverse ++ [(name, value ++ text)]) rest
      | [] => headersFrom [] rest
    | _ =>
      match cutText? ":" text with
      | some ("", _) | none => headersFrom done rest
      | some (name, value) =>
        let value := dropFront (fun c => c == ' ' || c == '\t') value
        headersFrom (done ++ [(lower name, value)]) rest

structure Part where
  headers : Entries String
  content : List Char
deriving Repr

/-- A part from its lines. The line end before a boundary belongs to the boundary. -/
def partOf (lines : List (List Char)) : Part :=
  let headers := lines.takeWhile isHeaderLine
  let body := match lines.drop headers.length with
    | line :: rest => if line.all isEnd then rest else line :: rest
    | [] => []
  { headers := headersFrom [] headers, content := dropEnd body.flatten }

/-- The parts from the first boundary on. Boundaries right after one another count once; the last
one ends the parts. The first argument bounds their number. -/
def partsFrom (boundary : String) : Nat → List (List Char) → List Part
  | 0, _ => []
  | fuel + 1, lines =>
    match lines with
    | [] => []
    | line :: rest =>
      if mark? boundary line == some .last then []
      else
        let rest := rest.dropWhile fun l => (mark? boundary l).isSome
        let own := rest.takeWhile fun l => (mark? boundary l).isNone
        partOf own :: partsFrom boundary fuel (rest.drop own.length)

def parts (boundary : String) (body : List Char) : List Part :=
  let lines := (linesFrom [] body).dropWhile fun l => (mark? boundary l).isNone
  partsFrom boundary lines.length lines

/-! ## Parameters -/

/-- Pieces of a header between semicolons outside of quotes; `current` holds the piece being read,
backwards. -/
def pieces (quoted : Bool) (current : List Char) : List Char → List (List Char)
  | [] => [current.reverse]
  | '\\' :: '"' :: cs => pieces quoted ('"' :: '\\' :: current) cs
  | c :: cs =>
    if c == ';' && !quoted then current.reverse :: pieces false [] cs
    else pieces (quoted != (c == '"')) (c :: current) cs

/-- The text after an opening quote, up to the closing one. A backslash stands before a character
that is taken as it is. -/
def quotedValue : List Char → List Char
  | '\\' :: c :: cs => c :: quotedValue cs
  | c :: cs => if c == '"' then [] else c :: quotedValue cs
  | [] => []

def isTokenChar (c : Char) : Bool :=
  32 < c.toNat && c.toNat != 127 && !"()<>@,;:\\\"/[]?=".toList.contains c

/-- The value of a parameter. Without quotes it is a token; a token with apostrophes is what stands
after the second of them. A value that is empty is none. -/
def parameterValue? (written : List Char) : Option String :=
  match written with
  | '"' :: cs => some (String.ofList (quotedValue cs))
  | cs =>
    let token := match splitAtElem '\'' (cs.takeWhile isTokenChar) with
      | [token] => token
      | _ :: _ :: rest => ['\''].intercalate rest
      | [] => []
    if token.isEmpty then none else some (String.ofList token)

def parameter? (piece : List Char) : Option (String × String) :=
  match cutText? "=" (String.ofList piece) with
  | some (name, written) =>
    (parameterValue? (trim written).toList).map fun value =>
      (lower (trim name), value)
  | none => some (lower (trim (String.ofList piece)), "")

def parameters (header : String) : Entries String :=
  ((pieces false [] header.toList).drop 1).filterMap parameter?

/-- What a header says before its parameters, in lower case. -/
def mainValue (header : String) : String :=
  lower (trim (String.ofList (header.toList.takeWhile (· != ';'))))

def contentKind (header : Option String) : String :=
  match header.map mainValue with
  | none => "text/plain"
  | some kind => if (kind.toList.filter (· == '/')).length == 1 then kind else "text/plain"

def boundary? (contentType : String) : Option String :=
  if startsWith (contentKind (some contentType)) "multipart/" then
    ((parameters contentType).get? "boundary").map trimBack
  else none

/-! ## Contents -/

inductive Error where
  | unknownKind (kind : String)
  | unknownCharset (name : String)
deriving DecidableEq, Repr

def Error.message : Error → String
  | unknownKind kind => quoted kind
  | unknownCharset name => "unknown encoding: " ++ name

/-- Bytes in which every byte that is not plain is written with an equals sign and two digits. -/
def unescapeFrom : Nat → List Char → List Char
  | 0, _ => []
  | _, [] => []
  | fuel + 1, '=' :: cs =>
    match cs with
    | [] => []
    | '\n' :: cs => unescapeFrom fuel cs
    | '\r' :: cs => unescapeFrom fuel ((cs.dropWhile (· != '\n')).drop 1)
    | '=' :: cs => '=' :: unescapeFrom fuel cs
    | a :: b :: rest =>
      match hexValue? a, hexValue? b with
      | some x, some y => Char.ofNat (16 * x + y) :: unescapeFrom fuel rest
      | _, _ => '=' :: unescapeFrom fuel (a :: b :: rest)
    | [a] => ['=', a]
  | fuel + 1, c :: cs => c :: unescapeFrom fuel cs

def bytesOf (cs : List Char) : List UInt8 :=
  cs.map fun c => UInt8.ofNat c.toNat

def charsOf (bytes : List UInt8) : List Char :=
  bytes.map fun b => Char.ofNat b.toNat

def transferred (p : Part) : List UInt8 :=
  match lower (trim ((p.headers.get? "content-transfer-encoding").getD "")) with
  | "quoted-printable" => bytesOf (unescapeFrom p.content.length p.content)
  | "base64" =>
    let text := p.content.filter fun c => !isEnd c
    let padding := List.replicate ((4 - text.length % 4) % 4) '='
    ((base64From 0 0 0 (text ++ padding)).or
      (base64From 0 0 0 (text ++ ['=', '=']))).getD (bytesOf text)
  | _ => bytesOf p.content

def decodeIn (charset : String) (bytes : List UInt8) : Except Error String :=
  let plain := replaceAll "_" "-" (lower charset)
  if ["utf-8", "utf8", "u8", "cp65001"].contains plain then .ok (decodeLossy bytes)
  else if ["ascii", "us-ascii", "us", "646", "iso646-us", "iso-ir-6", "ansi-x3.4-1968"].contains
      plain then
    .ok (String.ofList ((charsOf bytes).map fun c => if c.toNat < 128 then c else '�'))
  else if ["latin-1", "latin1", "latin", "l1", "iso-8859-1", "iso8859-1", "8859", "cp819"].contains
      plain then
    .ok (String.ofList (charsOf bytes))
  else .error (.unknownCharset charset)

def literalByte (quote : Char) (c : Char) : List Char :=
  if c.toNat < 128 then quotedChar quote c else '\\' :: 'x' :: (hex 2 c.toNat).toList

def bytesLiteral (bytes : List UInt8) : String :=
  let cs := charsOf bytes
  let quote := quoteFor cs
  String.ofList ('b' :: quote :: cs.flatMap (literalByte quote) ++ [quote])

def value (p : Part) : Except Error String :=
  let type := p.headers.get? "content-type"
  let kind := contentKind type
  match (splitChar '/' kind).headD "" with
  | "text" =>
    let charset := (type.bind fun t => (parameters t).get? "charset").getD "ASCII"
    decodeIn charset (transferred p)
  | "audio" | "image" | "video" | "application" => .ok (bytesLiteral (transferred p))
  | _ => .error (.unknownKind kind)

def fieldName? (p : Part) : Option String := do
  let disposition ← p.headers.get? "content-disposition"
  if mainValue disposition == "form-data" then
    let name ← (parameters disposition).get? "name"
    if name.isEmpty then none else some (decodeLossy (bytesOf name.toList))
  else none

def fields (contentType : String) (body : List UInt8) : Except Error (Entries String) :=
  match boundary? contentType with
  | none => .ok []
  | some boundary =>
    (parts boundary (charsOf body)).foldlM (fun found p => do
      match fieldName? p with
      | none => return found
      | some name => return found.put name (← value p)) []

end Appwright.Gallery.Multipart
