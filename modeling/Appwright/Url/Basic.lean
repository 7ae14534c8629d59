import Appwright.Text.Casing

/-!
# Web addresses

An address is cut at its first delimiters into scheme, authority, path, parameters, query and
fragment. Nothing is decoded. An authority is refused when its brackets do not hold an address, and
when a character of it stands for one of the delimiters.
-/

namespace Appwright.Url

open Text

/-! ## Network addresses

Four decimal bytes between dots, or eight groups of hexadecimal digits between colons, one run of zero
groups left out.
-/

/-- Whether a text is one byte of a dotted address: no sign, no leading zero. -/
def isByte (s : String) : Bool :=
  let cs := s.toList
  !cs.isEmpty && cs.all Char.isDigit && cs.length ≤ 3 && (s == "0" || cs.head? != some '0') &&
    decimalOf cs ≤ 255

def isDotted (s : String) : Bool :=
  let parts := splitChar '.' s
  parts.length == 4 && parts.all isByte

def isGroup (s : String) : Bool :=
  !s.isEmpty && s.length ≤ 4 && s.toList.all fun c => (hexValue? c).isSome

/-- The groups of a colon address, a dotted tail counted as two groups. -/
def groupsOf? (s : String) : Option (List String) :=
  let parts := splitChar ':' s
  match parts.getLast? with
  | none => none
  | some last =>
    if contains last "." then
      if isDotted last then some (parts.dropLast ++ ["0", "0"]) else none
    else some parts

/-- Whether the groups before or after the gap are well formed; an empty outermost group is part of
the gap and must stand alone. -/
def isSide (outermost : Option String) (groups : List String) : Bool :=
  match outermost with
  | some "" => groups.length == 1
  | _ => groups.all isGroup

def areGroups (parts : List String) : Bool :=
  let inner := (parts.drop 1).dropLast
  match inner.findIdx? String.isEmpty with
  | none => parts.length == 8 && parts.all isGroup
  | some i =>
    let front := parts.take (i + 1)
    let back := parts.drop (i + 2)
    let count (outermost : Option String) (groups : List String) :=
      if outermost == some "" then groups.length - 1 else groups.length
    (inner.filter String.isEmpty).length == 1 &&
      isSide front.head? front && isSide back.getLast? back &&
      count front.head? front + count back.getLast? back ≤ 7

/-- Whether a text is a colon address, a zone after a percent sign let pass. -/
def isColons (s : String) : Bool :=
  let (address, zoned) := match cutText? "%" s with
    | none => (s, true)
    | some (address, zone) => (address, !zone.isEmpty && !contains zone "%")
  zoned && match groupsOf? address with
    | none => false
    | some parts => 3 ≤ parts.length && parts.length ≤ 9 && areGroups parts

end Appwright.Url

namespace Appwright

/-! ## Web addresses -/

structure Url where
  scheme : String
  authority : String
  path : String
  params : String
  query : String
  fragment : String
deriving DecidableEq, Repr

namespace Url

inductive Error where
  | brackets
  | futureAddress
  | notAddress (host : String)
  | dottedInBrackets
  | lookalike (authority : String)
deriving DecidableEq, Repr

def Error.message : Error → String
  | brackets => "Invalid IPv6 URL"
  | futureAddress => "IPvFuture address is invalid"
  | notAddress host => Text.quoted host ++ " does not appear to be an IPv4 or IPv6 address"
  | dottedInBrackets => "An IPv4 address cannot be in brackets"
  | lookalike authority =>
    "netloc '" ++ authority ++ "' contains invalid characters under NFKC normalization"

def isSchemeChar (c : Char) : Bool :=
  c.isAlphanum || c == '+' || c == '-' || c == '.'

def takeScheme (cs : List Char) : String × List Char :=
  let front := cs.takeWhile (· != ':')
  match front.head?, cs.drop front.length with
  | some c, _ :: rest =>
    if c.isAlpha && front.all isSchemeChar then (Text.lower (String.ofList front), rest) else ("", cs)
  | _, _ => ("", cs)

/-- The characters that a normal form turns into one of the delimiters `/ ? # @ :`. -/
def lookalikes : List Nat :=
  [0x2047, 0x2048, 0x2049, 0x2100, 0x2101, 0x2105, 0x2106, 0x2a74, 0xfe13, 0xfe16, 0xfe55, 0xfe56,
    0xfe5f, 0xfe6b, 0xff03, 0xff0f, 0xff1a, 0xff1f, 0xff20]

/-- Whether brackets hold a future address: `v`, hexadecimal digits, a dot, and something on the
same line. -/
def isFuture (host : List Char) : Bool :=
  match host with
  | 'v' :: cs =>
    let digits := cs.takeWhile fun c => (Text.hexValue? c).isSome
    match cs.drop digits.length with
    | '.' :: rest => !digits.isEmpty && !rest.isEmpty && !rest.contains '\n'
    | _ => false
  | _ => false

def checkBracketed (host : String) : Except Error Unit :=
  if Text.startsWith host "v" then
    if isFuture host.toList then .ok () else .error .futureAddress
  else if isDotted host then .error .dottedInBrackets
  else if isColons host then .ok ()
  else .error (.notAddress host)

def checkBrackets (authority : String) : Except Error Unit :=
  let cs := authority.toList
  match cs.contains '[', cs.contains ']' with
  | true, true =>
    let inner := (cs.dropWhile (· != '[')).drop 1
    checkBracketed (String.ofList (inner.takeWhile (· != ']')))
  | false, false => .ok ()
  | _, _ => .error .brackets

def checkLookalikes (authority : String) : Except Error Unit :=
  if authority.toList.any fun c => lookalikes.contains c.toNat then .error (.lookalike authority)
  else .ok ()

def endsAuthority (c : Char) : Bool :=
  c == '/' || c == '?' || c == '#'

/-- The authority after two slashes, checked, and the rest. -/
def takeAuthority : List Char → Except Error (String × List Char)
  | '/' :: '/' :: cs =>
    let authority := String.ofList (cs.takeWhile fun c => !endsAuthority c)
    match checkBrackets authority with
    | .ok _ => .ok (authority, cs.dropWhile fun c => !endsAuthority c)
    | .error e => .error e
  | cs => .ok ("", cs)

/-- Cuts a list at the first place of a character, which goes. -/
def cutAt (c : Char) (cs : List Char) : List Char × List Char :=
  (cs.takeWhile (· != c), (cs.dropWhile (· != c)).drop 1)

def schemesWithParams : List String :=
  ["", "ftp", "hdl", "prospero", "http", "imap", "https", "shttp", "rtsp", "rtsps", "rtspu", "sip", "sips", "mms",
    "sftp", "tel"]

def cutParams (path : List Char) : List Char × List Char :=
  let last := (path.reverse.takeWhile (· != '/')).reverse
  let (segment, params) := cutAt ';' last
  (path.take (path.length - last.length) ++ segment, params)

/-- Takes an address apart. Control characters and blanks in front go, and so do tabs and line ends
anywhere. -/
def parse (text : String) : Except Error Url := do
  let cs := (text.toList.dropWhile fun c => c.toNat ≤ 0x20).filter fun c =>
    c != '\t' && c != '\r' && c != '\n'
  let (scheme, rest) := takeScheme cs
  let (authority, rest) ← takeAuthority rest
  checkLookalikes authority
  let (rest, fragment) := cutAt '#' rest
  let (path, query) := cutAt '?' rest
  let (path, params) := if schemesWithParams.contains scheme then cutParams path else (path, [])
  return {
    scheme
    authority
    path := String.ofList path
    params := String.ofList params
    query := String.ofList query
    fragment := String.ofList fragment }

/-- The host of an address in lower case, a zone after a percent sign left as it is; nothing where
there is none. -/
def host? (u : Url) : Option String :=
  let cs := u.authority.toList
  let after := (cs.reverse.takeWhile (· != '@')).reverse
  let host := if after.contains '['
    then ((after.dropWhile (· != '[')).drop 1).takeWhile (· != ']')
    else after.takeWhile (· != ':')
  if host.isEmpty then none
  else
    let name := host.takeWhile (· != '%')
    some (Text.lower (String.ofList name) ++ String.ofList (host.drop name.length))

end Url

end Appwright
