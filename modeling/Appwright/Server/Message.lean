import Appwright.Entries
import Appwright.Text.Casing
import Appwright.Text.Utf8

/-!
# Requests and responses
-/

namespace Appwright.Server

open Text

structure Request where
  method : String
  target : String
  headers : Entries String := []
  body : List UInt8 := []
  client : String := ""
deriving Repr

/-- The first header with a name, in whatever case it is written. -/
def Request.header? (r : Request) (name : String) : Option String :=
  (r.headers.find? fun h => lower h.1 == lower name).map Prod.snd

structure Response where
  status : Int
  headers : Entries String
  body : String
deriving DecidableEq, Repr

def securityHeaders : Entries String :=
  [("X-Content-Type-Options", "nosniff"), ("X-Frame-Options", "DENY"),
    ("Referrer-Policy", "no-referrer"), ("Permissions-Policy", "interest-cohort=()")]

def bodyHeaders (kind body : String) : Entries String :=
  [("Content-Type", kind), ("Content-Length", ofNat (encode body).length)]

def jsonKind : String := "application/json; charset=utf-8"

def htmlKind : String := "text/html; charset=utf-8"

def statuses : List Int :=
  [100, 101, 102, 103, 200, 201, 202, 203, 204, 205, 206, 207, 208, 226, 300, 301, 302, 303, 304,
    305, 307, 308, 400, 401, 402, 403, 404, 405, 406, 407, 408, 409, 410, 411, 412, 413, 414, 415,
    416, 417, 418, 421, 422, 423, 424, 425, 426, 428, 429, 431, 451, 500, 501, 502, 503, 504, 505,
    506, 507, 508, 510, 511]

/-- A header that cannot be written: its line has characters beyond the first 256. -/
structure HeaderError where
  line : String
deriving DecidableEq, Repr

def escapedCodePoint (c : Char) : String :=
  if c.toNat < 0x10000 then "\\u" ++ hex 4 c.toNat else "\\U" ++ hex 8 c.toNat

/-- The wording of a header error, which names the first characters that cannot be written. -/
def HeaderError.message (e : HeaderError) : String :=
  let fits (c : Char) : Bool := c.toNat < 256
  let cs := e.line.toList
  let start := (cs.takeWhile fits).length
  let run := (cs.drop start).takeWhile fun c => !fits c
  let what := match run with
    | [c] => "character '" ++ escapedCodePoint c ++ "' in position " ++ ofNat start
    | run => "characters in position " ++ ofNat start ++ "-" ++
        ofNat (start + run.length - 1)
  "'latin-1' codec can't encode " ++ what ++ ": ordinal not in range(256)"

def checkHeaders (headers : Entries String) : Except HeaderError Unit :=
  match headers.find? fun h => (h.1 ++ h.2).toList.any fun c => 256 ≤ c.toNat with
  | some h => .error ⟨h.1 ++ ": " ++ h.2 ++ "\r\n"⟩
  | none => .ok ()

end Appwright.Server
