import Appwright.Json.Writer
import Appwright.Text.Casing
import Appwright.Text.Utf8

/-!
# Calls of other services

A session is the part of the world that a call can touch: the clock, the answers still to come, the
requests sent, and the pauses made. Answers are given beforehand, one for each call.
-/

namespace Appwright.Outbound

open Text

structure Request where
  method : String
  url : String
  /-- Each header name once, in its stored form. -/
  headers : Entries String
  body : Option String
deriving DecidableEq, Repr

def headerName (name : String) : String :=
  capitalize name

/-- Adds a header; a name that is present gets the new value. -/
def Request.addHeader (r : Request) (name value : String) : Request :=
  { r with headers := r.headers.put (headerName name) value }

/-- The stored form of an address: no blanks around it, no angle brackets, and no mark of an empty
fragment. -/
def storedUrl (url : String) : String :=
  let s := trim url
  let s :=
    if startsWith s "<" && endsWith s ">" then
      trim (String.ofList (s.toList.drop 1).dropLast)
    else s
  let s := match afterText? "URL:" s with
    | some rest => trim rest
    | none => s
  if endsWith s "#" then String.ofList s.toList.dropLast else s

def hasScheme (url : String) : Bool :=
  let (name, rest) := url.toList.span fun c => c != '/' && c != ':'
  !name.isEmpty && rest.head? == some ':'

def Request.to (method url : String) (body : Option String) : Request :=
  { method, url := storedUrl url, headers := [], body }

inductive Failure where
  | timeout
  | connectTimeout
  | unreachable (reason : String)
  | broken (reason : String)
deriving DecidableEq, Repr

def Failure.message : Failure → String
  | timeout => "timed out"
  | connectTimeout => "<urlopen error timed out>"
  | unreachable reason => "<urlopen error " ++ reason ++ ">"
  | broken reason => reason

def Failure.isTimeout : Failure → Bool
  | timeout | connectTimeout => true
  | _ => false

structure Response where
  status : Int := 200
  headers : Entries String := []
  body : List UInt8 := []
  /-- Why the body of a refusal cannot be read. -/
  unreadable : Option String := none
deriving DecidableEq, Repr

def isSuccess (status : Int) : Bool :=
  200 ≤ status && status < 300

/-- What one call brings, and how long it takes. -/
structure Reply where
  seconds : Float := 0.0
  outcome : Except Failure Response
deriving Repr

structure Sent where
  request : Request
  timeout : Json
deriving Repr

structure Session where
  clock : Float := 1000.0
  script : List Reply := []
  sent : List Sent := []
  pauses : List Float := []
deriving Repr

def noReply : Reply where
  outcome := .error (.unreachable "no scripted response")

def Session.call (request : Request) (timeout : Json) (s : Session) :
    Except Failure Response × Session :=
  let reply := s.script.headD noReply
  (reply.outcome, {
    s with
    clock := s.clock + reply.seconds
    script := s.script.tail
    sent := s.sent ++ [{ request, timeout }] })

def Session.pause (seconds : Float) (s : Session) : Session :=
  { s with clock := s.clock + seconds, pauses := s.pauses ++ [seconds] }

/-- From this attempt on no wait can be computed: the power of two in it is no float any more. -/
def backoffEnd : Nat := 1024

/-- How long to wait after an attempt: twice as long each time, up to a limit. -/
def backoff (attempt : Nat) : Float :=
  let seconds := 0.25 * Float.ofNat (Nat.pow 2 attempt)
  if seconds < 2.5 then seconds else 2.5

def isRetryable (status : Int) : Bool :=
  status == 408 || status == 429 || (500 ≤ status && status < 600)

/-- An answer with its status, headers and body, whether it is a success or not. The body of a
refusal may be unreadable. -/
def read (outcome : Except Failure Response) : Except Failure Response :=
  match outcome with
  | .error e => .error e
  | .ok r =>
    if isSuccess r.status then .ok r
    else
      match r.unreadable with
      | some reason => .error (.broken reason)
      | none => .ok { r with status := if r.status == 0 then 500 else r.status }

end Appwright.Outbound
