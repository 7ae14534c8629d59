import Appwright.Json.Reader
import Appwright.Target.Builtin
import Appwright.Text.Moment

/-!
# The library of programs

Functions that every program has under one name: messages in the report, the time, JSON, checks,
and paths into data.
-/

namespace Appwright.Target

def Library.signature (f : Library) : Signature :=
  let (required, optional) : List String × List String := match f with
    | .log => (["message"], [])
    | .nowIso => ([], [])
    | .toJson => (["data"], [])
    | .fromJson => (["text"], [])
    | .ensure => (["condition"], ["message"])
    | .safeGet => (["obj", "path"], ["default"])
    | .env => (["name"], ["default"])
    | .validateSchema => (["data", "schema"], [])
    | .validateModel => (["model", "data"], [])
    | .parallel => (["tasks"], ["max_workers"])
  { name := f.word, required, optional, takesMore := f = .log || f = .toJson }

def failures : Trace.Failures Fault where
  describe := Fault.text
  guardHit token := ⟨.guard, "Guard token detected: " ++ token⟩
  guardKind kind := .ofType ("'in <string>' requires string as left operand, not " ++ kind)
  guardShape kind := .ofType (tick kind ++ " object is not iterable")
  badRetry := ofNumberError
  clash function field :=
    .ofType (function ++ "() got multiple values for argument " ++ tick field)
  timedOut limit := ⟨.timeout, "Step exceeded timeout of " ++ limit ++ "s"⟩

def dumpOptions : List String :=
  ["skipkeys", "check_circular", "allow_nan", "cls", "indent", "separators", "default", "sort_keys"]

def readDump (options : Entries Value) : Calc (Data.Dump × Json.Style) := do
  if options.has "ensure_ascii" then
    throw (.ofType "json.dumps() got multiple values for keyword argument 'ensure_ascii'")
  match options.find? fun e => !dumpOptions.contains e.1 with
  | some (n, _) =>
    throw (.ofType ("JSONEncoder.__init__() got an unexpected keyword argument " ++ tick n))
  | none => pure ()
  let flag (name : String) (ifNone : Bool) : Calc Bool :=
    match options.get? name with
    | none => pure ifNone
    | some v => isTrue v
  let how : Data.Dump :=
    { sortKeys := ← flag "sort_keys" false, skipKeys := ← flag "skipkeys" false,
      allowNan := ← flag "allow_nan" true }
  let indent ← match (options.get? "indent").getD .none with
    | .none => pure none
    | .str s => pure (some s)
    | v => (fun n : Int => some (Text.times n.toNat " ")) <$> asWhole v
  let gap := if indent.isSome then "," else ", "
  let (itemGap, nameGap) ← match (options.get? "separators").getD .none with
    | .none => pure (gap, ": ")
    | v => do
      match ← itemsOf v with
      | [.str a, .str b] => pure (a, b)
      | _ => pure (gap, ": ")
  return (how, { indent, itemGap, nameGap })

def jsonText (v : Value) (options : Entries Value) : Calc Value := do
  let (how, style) ← readDump options
  let j ← ofExcept ((← spelled v).toJson how)
  return .str (j.write style)

def valueOfText (v : Value) : Calc Value := do
  match v with
  | .str s =>
    match Json.read s with
    | .ok j => valueOf (.ofJson j)
    | .error e =>
      let kind : ErrorKind := match e with
        | .fault _ _ _ _ => .jsonDecode
        | _ => .value
      throw ⟨kind, e.message⟩
  | v => throw (.ofType ("the JSON object must be str, bytes or bytearray, not " ++ v.kindName))

def tried {α : Type} (run : Calc α) : Calc (Option α) := do
  match ← caught run with
  | .ok v => return some v
  | .error _ => return none

/-- One step along a path: an entry of a dictionary, or an attribute of anything else. -/
def follow (v part : Value) : Calc Value := do
  match v, part with
  | .dict _, part => indexed v part
  | v, .str name => attributeOf v name
  | _, part =>
    throw (.ofType ("attribute name must be string, not " ++ tick part.kindName))

/-- What stands at the end of a path; the default where the path does not lead on. -/
def safeGet (v ifNone : Value) : List Value → Calc Value
  | [] => pure v
  | part :: rest => do
    match ← tried (follow v part) with
    | some w => safeGet w ifNone rest
    | none => return ifNone

/-- The parts of a path: those between the dots of a text, or the items of anything else. -/
def pathParts (path : Value) : Calc (List Value) := do
  match path with
  | .str s => return ((Text.splitChar '.' s).filter (!·.isEmpty)).map .str
  | v => itemsOf v

/-- A model that can make something of data, by the names of its constructors. -/
abbrev Model (α : Type) := Entries (α → Eval α)

/-- Has a model check data, by the first of two constructors that it has. -/
def validateModel {α : Type} (owner : String) (model : Model α) (data : α) : Eval α := do
  match model.get? "parse_obj", model.get? "model_validate" with
  | some f, _ => f data
  | none, some f => f data
  | none, none => throw ⟨.attr, owner ++ " has no attribute 'model_validate'"⟩

def callLibrary (f : Library) (args : List Value) (named : Entries Value) : Eval Value := do
  let (bound, further) ← ofExcept (f.signature.bind args named)
  let argument (name : String) : Value := (bound.get? name).getD .none
  match f with
  | .log => do
    Trace.logMessage failures (argument "message") further
    return .none
  | .nowIso => return .str (Text.moment (← get).clock)
  | .toJson => jsonText (argument "data") further
  | .fromJson => valueOfText (argument "text")
  | .ensure => do
    if ← isTrue (argument "condition") then return .none
    let message := argument "message"
    if ← isTrue message then throw (← faultOf .value [message])
    throw (.ofValue "ensure() failed")
  | .safeGet => do
    let parts ← pathParts (argument "path")
    safeGet (argument "obj") (argument "default") parts
  | .env => do
    match argument "name" with
    | .str s => return ((← get).rest.environment.get? s).map Value.str |>.getD (argument "default")
    | v => throw (.ofType ("str expected, not " ++ v.kindName))
  | .validateSchema => throw ⟨.runtime, "jsonschema is not installed"⟩
  | .validateModel => throw (noAttribute (argument "model") "model_validate")
  | .parallel => return .none

end Appwright.Target
