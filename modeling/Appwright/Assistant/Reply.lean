import Appwright.Json.Reader

/-!
# What language models answer

The address of a chat service, where its answer holds the text, and the JSON object inside a text
that may have words or a fence around it.
-/

namespace Appwright.Assistant

open Text

def chatUrl (base : String) : String :=
  let base := dropBack (· == '/') base
  if endsWith base "/chat/completions" then base
  else if endsWith base "/v1" then base ++ "/chat/completions"
  else base ++ "/v1/chat/completions"

def localChatUrl (base : String) : String :=
  dropBack (· == '/') base ++ "/api/chat"

def chatContent? (data : Json) : Option Json := do
  let .arr (choice :: _) ← data.get? "choices" | none
  let message ← choice.get? "message"
  message.get? "content"

def localContent? (data : Json) : Option Json := do
  let message ← data.get? "message"
  message.get? "content"

/-- A text without the fence around it and without the word that names its language. -/
def unfence (text : String) : String :=
  let cleaned := trim text
  if startsWith cleaned "```" then
    trim (replaceFirst "json" "" (dropEnds (· == '`') cleaned))
  else cleaned

/-- From the first opening brace to the last closing one. -/
def braced? (text : String) : Option String :=
  let cs := text.toList.dropWhile (· != '{')
  let body := dropLastWhile (· != '}') cs
  if body.isEmpty then none else some (String.ofList body)

inductive ExtractError where
  | missing
  | json (cause : Json.ReadError)
deriving DecidableEq, Repr

def extract (text : String) : Except ExtractError Json :=
  match braced? (unfence text) with
  | none => .error .missing
  | some document => (Json.read document).mapError .json

end Appwright.Assistant
