import Appwright.Program.Check
import Appwright.Program.Parser

/-!
# Generated source

The Python source of a program: a fixed opening, the imports, the inputs, one decorated function a
step, and the result. Every operator is written between parentheses, blocks are indented by four
blanks a level, and an empty block is `pass`.

Parts of a document below the outermost node of an expression are not checked beforehand, so
generation can fail; the reasons are those of reaching into a document at the wrong place.
-/

namespace Appwright.Program

open Text Entries Node

inductive ShapeError where
  | missingMember (name : String)
  | unsupported (got : Node)
  | notSubscriptable (kind : String)
  | textIndex
  | listIndex
  | notIterable (kind : String)
  | notContainer (kind : String)
  | noAttribute (kind attr : String)
  /-- A list of pieces to be joined holds something that is no text. -/
  | joinItem (position : Nat) (kind : String)
  | appendKind (kind : String)
deriving Repr, Inhabited

def ShapeError.message : ShapeError → String
  | missingMember name => quoted name
  | unsupported got => s!"Unsupported expression node: {got.display}"
  | notSubscriptable kind => s!"'{kind}' object is not subscriptable"
  | textIndex => "string indices must be integers, not 'str'"
  | listIndex => "list indices must be integers or slices, not str"
  | notIterable kind => s!"'{kind}' object is not iterable"
  | notContainer kind => s!"argument of type '{kind}' is not iterable"
  | noAttribute kind attr => s!"'{kind}' object has no attribute '{attr}'"
  | joinItem position kind => s!"sequence item {position}: expected str instance, {kind} found"
  | appendKind kind => s!"can only concatenate str (not \"{kind}\") to str"

abbrev Emitted (α : Type) := Except ShapeError α

/-- A member of a node that should be an object, with the fact that it is smaller. -/
def Node.member (name : String) : (node : Node) → Emitted { v : Node // sizeOf v < sizeOf node }
  | .obj members =>
    match child? name members with
    | some ⟨v, h⟩ => .ok ⟨v, by simp only [obj.sizeOf_spec]; omega⟩
    | none => .error (.missingMember name)
  | .str _ => .error .textIndex
  | .list _ => .error .listIndex
  | v => .error (.notSubscriptable v.kindName)

/-- The pieces of a join, or a complaint about the first that is no text; `position` counts those
before. -/
def joinTexts (position : Nat) : List Node → Emitted (List String)
  | [] => .ok []
  | .str s :: rest => (joinTexts (position + 1) rest).map (s :: ·)
  | v :: _ => .error (.joinItem position v.kindName)

def commaJoin (pieces : List Node) : Emitted String :=
  (joinTexts 0 pieces).map (String.intercalate ", ")

def Node.letters (s : String) : List Node :=
  s.toList.map fun c => .str c.toString

def Node.keys (members : Entries Node) : List Node :=
  members.map fun e => .str e.1

def braced (s : String) : String :=
  "\x7b" ++ s ++ "\x7d"

def soleComma (count : Nat) : String :=
  if count == 1 then "," else ""

mutual
/-- The source of an expression. It is a text, except that a `name` or `python` node gives whatever
it holds. -/
def emit : Node → Emitted Node
  | .obj members =>
    match get? "python" members with
    | some v => .ok v
    | none =>
    match get? "name" members with
    | some v => .ok v
    | none =>
    match get? "literal" members with
    | some v => .ok (.str v.literal)
    | none =>
    match child? "call" members with
    | some ⟨func, _⟩ => do
      let f ← emit func
      let args ← match child? "args" members with
        | some ⟨v, _⟩ => emitSequence v
        | none => pure []
      let named ← match child? "kwargs" members with
        | some ⟨v, _⟩ => emitNamed v
        | none => pure []
      let joined ← commaJoin (args ++ named)
      return .str (f.display ++ "(" ++ joined ++ ")")
    | none =>
    match child? "validate" members with
    | some ⟨info, _⟩ => do
      match ← emitValidate info with
      | some source => return source
      | none => emitRest members
    | none => emitRest members
  | .str s => .ok (.str s)
  | .null => .ok (.str "None")
  | .bool b => .ok (.str (bool b).literal)
  | .int n => .ok (.str (int n).literal)
  | .float x => .ok (.str (float x).literal)
  | v => .error (.unsupported v)
termination_by node => 2 * sizeOf node
def emitValidate (info : Node) : Emitted (Option Node) := do
  let ⟨d, _⟩ ← info.member "data"
  let data ← emit d
  match info.member "schema" with
  | .ok ⟨s, _⟩ =>
    let schema ← emit s
    return some (.str ("vbl.validate_jsonschema(" ++ data.display ++ ", " ++ schema.display ++ ")"))
  | .error _ =>
    match info.member "model" with
    | .ok ⟨m, _⟩ =>
      let model ← emit m
      return some
        (.str ("vbl.validate_pydantic(" ++ model.display ++ ", " ++ data.display ++ ")"))
    | .error _ => return none
termination_by 2 * sizeOf info
def emitRest (members : Entries Node) : Emitted Node :=
  match child? "parallel" members with
  | some ⟨v, _⟩ => do
    let tasks ← emitTasks v
    let joined ← commaJoin tasks
    return .str ("vbl.parallel(" ++ braced joined ++ ")")
  | none =>
  match child? "attr" members with
  | some ⟨v, _⟩ => emitAttr v
  | none =>
  match child? "index" members with
  | some ⟨info, _⟩ => do
    let ⟨b, _⟩ ← info.member "base"
    let base ← emit b
    let ⟨i, _⟩ ← info.member "index"
    let index ← emit i
    return .str (base.display ++ "[" ++ index.display ++ "]")
  | none =>
  match child? "list" members with
  | some ⟨v, _⟩ => do
    let pieces ← emitSequence v
    let joined ← commaJoin pieces
    return .str ("[" ++ joined ++ "]")
  | none =>
  match child? "tuple" members with
  | some ⟨v, _⟩ => do
    let pieces ← emitSequence v
    let joined ← commaJoin pieces
    return .str ("(" ++ joined ++ soleComma pieces.length ++ ")")
  | none =>
  match child? "dict" members with
  | some ⟨v, _⟩ => do
    let pieces ← emitDict v
    return .str (braced (String.intercalate ", " pieces))
  | none =>
  match child? "binop" members with
  | some ⟨info, _⟩ => do
    let ⟨l, _⟩ ← info.member "left"
    let left ← emit l
    let ⟨r, _⟩ ← info.member "right"
    let right ← emit r
    let ⟨op, _⟩ ← info.member "op"
    return .str ("(" ++ left.display ++ " " ++ op.display ++ " " ++ right.display ++ ")")
  | none => .error (.unsupported (.obj members))
termination_by 2 * sizeOf members + 1
def emitAttr : Node → Emitted Node
  | .obj info => do
    let base ← match child? "base" info, child? "object" info with
      | some ⟨b, _⟩, some ⟨o, _⟩ => if b.truthy then emit b else emit o
      | some ⟨b, _⟩, none => if b.truthy then emit b else pure (.str "None")
      | none, some ⟨o, _⟩ => emit o
      | none, none => pure (.str "None")
    match get? "attr" info with
    | none => .error (.missingMember "attr")
    | some a => return .str (base.display ++ "." ++ a.display)
  | v => .error (.noAttribute v.kindName "get")
termination_by node => 2 * sizeOf node
/-- The sources of what a node runs through: the items of a list, the characters of a text, the
names of an object. -/
def emitSequence : Node → Emitted (List Node)
  | .list items => emitItems items
  | .str s => .ok (letters s)
  | .obj members => .ok (keys members)
  | v => .error (.notIterable v.kindName)
termination_by node => 2 * sizeOf node
def emitItems : List Node → Emitted (List Node)
  | [] => .ok []
  | v :: rest => do
    let e ← emit v
    let es ← emitItems rest
    return e :: es
termination_by nodes => 2 * sizeOf nodes
def emitNamed : Node → Emitted (List Node)
  | .obj members => do
    let pieces ← emitMembers members
    return pieces.map fun e => .str (e.1 ++ "=" ++ e.2)
  | v => .error (.noAttribute v.kindName "items")
termination_by node => 2 * sizeOf node
def emitMembers : List (String × Node) → Emitted (List (String × String))
  | [] => .ok []
  | (k, v) :: rest => do
    let e ← emit v
    let es ← emitMembers rest
    return (k, e.display) :: es
termination_by members => 2 * sizeOf members
def emitDict : Node → Emitted (List String)
  | .obj members => do
    let pieces ← emitMembers members
    return pieces.map fun e => quoted e.1 ++ ": " ++ e.2
  | .list items => emitEntries items
  | .str s => if s.isEmpty then .ok [] else .error .textIndex
  | v => .error (.notIterable v.kindName)
termination_by node => 2 * sizeOf node
def emitEntries : List Node → Emitted (List String)
  | [] => .ok []
  | item :: rest => do
    let ⟨k, _⟩ ← item.member "key"
    let key ← emit k
    let ⟨v, _⟩ ← item.member "value"
    let value ← emit v
    let es ← emitEntries rest
    return (key.display ++ ": " ++ value.display) :: es
termination_by nodes => 2 * sizeOf nodes
decreasing_by
  all_goals simp only [List.cons.sizeOf_spec]
  all_goals omega
def emitTasks : Node → Emitted (List Node)
  | .list items => emitTaskItems items
  | .str s => if s.isEmpty then .ok [] else .error .textIndex
  | .obj members => if members.isEmpty then .ok [] else .error .textIndex
  | v => .error (.notIterable v.kindName)
termination_by node => 2 * sizeOf node
def emitTaskItems : List Node → Emitted (List Node)
  | [] => .ok []
  | item :: rest => do
    let ⟨n, _⟩ ← item.member "name"
    let ⟨c, _⟩ ← item.member "call"
    let call ← emit c
    let es ← emitTaskItems rest
    return .str (n.literal ++ ": (lambda: " ++ call.display ++ ")") :: es
termination_by nodes => 2 * sizeOf nodes
decreasing_by
  all_goals simp only [List.cons.sizeOf_spec]
  all_goals omega
end

/-! ## Statements -/

def margin (indent : Nat) : String :=
  String.ofList (List.replicate indent ' ')

def lineAt (indent : Nat) (s : String) : String :=
  margin indent ++ s

/-- Lines given as nodes, each put behind a margin; a node that is no text cannot be. -/
def marginLines (indent : Nat) : List Node → Emitted (List String)
  | [] => .ok []
  | .str s :: rest => (marginLines indent rest).map (lineAt indent s :: ·)
  | v :: _ => .error (.appendKind v.kindName)

def codeLines : Node → List Node
  | .str s =>
    let ls := lines s
    if ls.isEmpty then [.str "pass"] else ls.map .str
  | .list items => if items.isEmpty then [.str "pass"] else items
  | _ => [.str "pass"]

/-- A member that is missing counts as null here: the check has made sure that it is there. -/
def memberOrNull (name : String) (info : Node) : Node :=
  (info.members?.bind (get? name)).getD .null

def emitContexts : List Node → Emitted (List Node)
  | [] => .ok []
  | item :: rest => do
    let c ← emit (memberOrNull "context" item)
    let cs ← emitContexts rest
    let label := memberOrNull "as" item
    return (if label.truthy then .str (c.display ++ " as " ++ label.display) else c) :: cs

theorem Node.sizeOf_nil_le (info : Node) : sizeOf ([] : List Node) ≤ sizeOf info := by
  cases info <;> simp

theorem Node.sizeOf_items_le {items : List Node} {members : Entries Node}
    (h : sizeOf (list items) < sizeOf members) : sizeOf items ≤ sizeOf (obj members) := by
  simp only [list.sizeOf_spec, obj.sizeOf_spec] at *
  omega

/-- A member that is a list, empty where it is missing or something else. -/
def Node.bodyOf (name : String) (info : Node) : { items : List Node // sizeOf items ≤ sizeOf info } :=
  match info with
  | .obj members =>
    match child? name members with
    | some ⟨.list items, h⟩ => ⟨items, sizeOf_items_le h⟩
    | _ => ⟨[], sizeOf_nil_le _⟩
  | info => ⟨[], sizeOf_nil_le info⟩

mutual
def emitStmt (indent : Nat) : Node → Emitted (List String)
  | .obj members =>
    match firstChild? stmtKinds members with
    | none => .error (.unsupported (.obj members))
    | some (kind, ⟨v, _⟩) =>
      if kind == "python" then marginLines indent (codeLines v)
      else if kind == "set" then do
        let value ← emit (memberOrNull "value" v)
        return [lineAt indent ((memberOrNull "name" v).display ++ " = " ++ value.display)]
      else if kind == "expr" then do
        match ← emit v with
        | .str s => return [lineAt indent s]
        | other => .error (.appendKind other.kindName)
      else if kind == "return" then do
        let value ← emit v
        return [lineAt indent ("return " ++ value.display)]
      else if kind == "if" then do
        let cond ← emit (memberOrNull "cond" v)
        let ⟨thenPart, _⟩ := v.bodyOf "then"
        let body ← emitBlock (indent + 4) thenPart
        let ⟨elsePart, _⟩ := v.bodyOf "else"
        let tail ← emitElse indent elsePart
        return lineAt indent ("if " ++ cond.display ++ ":") :: body ++ tail
      else if kind == "for" then do
        let iter ← emit (memberOrNull "iter" v)
        let ⟨bodyPart, _⟩ := v.bodyOf "body"
        let body ← emitBlock (indent + 4) bodyPart
        let var := (memberOrNull "var" v).display
        return lineAt indent ("for " ++ var ++ " in " ++ iter.display ++ ":") :: body
      else if kind == "while" then do
        let cond ← emit (memberOrNull "cond" v)
        let ⟨bodyPart, _⟩ := v.bodyOf "body"
        let body ← emitBlock (indent + 4) bodyPart
        let ⟨elsePart, _⟩ := v.bodyOf "else"
        let tail ← emitElse indent elsePart
        return lineAt indent ("while " ++ cond.display ++ ":") :: body ++ tail
      else if kind == "break" then .ok [lineAt indent "break"]
      else if kind == "continue" then .ok [lineAt indent "continue"]
      else if kind == "raise" then
        match v with
        | .null => .ok [lineAt indent "raise"]
        | v => do
          let value ← emit v
          return [lineAt indent ("raise " ++ value.display)]
      else if kind == "with" then do
        let contexts ← emitContexts (v.bodyOf "items").1
        let joined ← commaJoin contexts
        let ⟨bodyPart, _⟩ := v.bodyOf "body"
        let body ← emitBlock (indent + 4) bodyPart
        return lineAt indent ("with " ++ joined ++ ":") :: body
      else do
        let cond ← emit (memberOrNull "cond" v)
        match v.members?.bind (get? "msg") with
        | some m =>
          let message ← emit m
          return [lineAt indent ("assert " ++ cond.display ++ ", " ++ message.display)]
        | none => return [lineAt indent ("assert " ++ cond.display)]
  | v => .error (.unsupported v)
termination_by node => 3 * sizeOf node
def emitBlock (indent : Nat) (stmts : List Node) : Emitted (List String) :=
  if stmts.isEmpty then .ok [lineAt indent "pass"] else emitStmts indent stmts
termination_by 3 * sizeOf stmts + 1
def emitStmts (indent : Nat) : List Node → Emitted (List String)
  | [] => .ok []
  | s :: rest => do
    let here ← emitStmt indent s
    let more ← emitStmts indent rest
    return here ++ more
termination_by stmts => 3 * sizeOf stmts
def emitElse (indent : Nat) (stmts : List Node) : Emitted (List String) :=
  if stmts.isEmpty then .ok []
  else do
    let body ← emitStmts (indent + 4) stmts
    return lineAt indent "else:" :: body
termination_by 3 * sizeOf stmts + 1
end

/-! ## Programs -/

def importLine : Node → String
  | .str module => "import " ++ module
  | item =>
    let names (v : Node) : String := match v with
      | .list items => String.intercalate ", " (items.map display)
      | v => v.display
    let module := memberOrNull "import" item
    match item with
    | .obj members =>
      match get? "from" members with
      | some source => "from " ++ source.display ++ " import " ++ names module
      | none =>
        match get? "as" members with
        | some label => "import " ++ module.display ++ " as " ++ label.display
        | none => "import " ++ module.display
    | _ => "import " ++ item.display

def decoratorArguments (step : Entries Node) : List String :=
  ["retry", "timeout", "guard", "produces"].filterMap fun key =>
    (get? key step).map fun v => key ++ "=" ++ v.literal

def stepBody (step : Entries Node) : Emitted (List String) :=
  match (get? "body" step).map codeOr with
  | some (.obj members) => emitBlock 4 ((obj members).bodyOf "block").1
  | some .null => stepReturn
  | some body => marginLines 4 (codeLines body)
  | none => stepReturn
where
  stepReturn : Emitted (List String) :=
    match get? "return" step with
    | some v => do
      let value ← emit v
      return ["    return " ++ value.display]
    | none => .ok ["    pass"]

def emitStep (step : Node) : Emitted (List String) := do
  match step with
  | .obj members =>
    let decorator := "@step(" ++ String.intercalate ", " (decoratorArguments members) ++ ")"
    let params := (step.bodyOf "params").1.map display
    let name := (memberOrNull "name" step).display
    let body ← stepBody members
    return decorator :: ("def " ++ name ++ "(" ++ String.intercalate ", " params ++ "):") :: body
  | _ => return []

def emitSteps : List Node → Emitted (List String)
  | [] => .ok []
  | s :: rest => do
    let here ← emitStep s
    let more ← emitSteps rest
    return here ++ [""] ++ more

/-- The lines of what a program runs; those of a `python` node may be anything. -/
def emitRun : Node → Emitted (List Node)
  | .obj members =>
    match get? "python" members with
    | some code => do
      let lines ← match code with
        | .str s => .ok ((lines s).map .str)
        | .list items => .ok items
        | .obj ms => .ok (keys ms)
        | v => if v.truthy then .error (.notIterable v.kindName) else .ok []
      return .str "__vbl_result__ = None" :: lines
    | none =>
      match get? "block" members with
      | some _ => do
        let body ← emitBlock 4 ((obj members).bodyOf "block").1
        return .str "def __vbl_run__():" :: body.map .str ++
          [.str "__vbl_result__ = __vbl_run__()"]
      | none => assignResult (.obj members)
  | v => assignResult v
where
  assignResult (v : Node) : Emitted (List Node) := do
    let value ← emit v
    return [.str ("__vbl_result__ = " ++ value.display)]

def openingLines : List String :=
  ["from vibelang.runtime import step", "import vibelang.std as vbl", ""]

def inputLines (inputs : Entries Node) : List String :=
  if inputs.isEmpty then []
  else inputs.map (fun e => e.1 ++ " = __vbl_inputs__.get(" ++ quoted e.1 ++ ")") ++ [""]

def generate (program : Entries Node) : Emitted String := do
  let document := obj program
  let imports := (document.bodyOf "imports").1
  let importLines := if imports.isEmpty then [] else imports.map importLine ++ [""]
  let inputs := ((get? "inputs" program).bind members?).getD []
  let steps ← emitSteps (document.bodyOf "steps").1
  let run ← emitRun ((get? "run" program).getD .null)
  let front := openingLines ++ importLines ++ inputLines inputs ++ steps
  let tail ← joinTexts front.length run
  return trimBack (String.intercalate "
" (front ++ tail)) ++ "
"

inductive CompileError where
  | check (cause : CheckError)
  | shape (cause : ShapeError)
deriving Repr, Inhabited

def CompileError.message : CompileError → String
  | check cause => cause.message
  | shape cause => cause.message

def compile (program : Entries Node) : Except CompileError String := do
  (check program).mapError CompileError.check
  (generate program).mapError CompileError.shape

/-- The members of a program document. A document that is no object is searched for a `run` entry
all the same before it is refused. -/
def membersOf : Node → Except CompileError (Entries Node)
  | .obj members => .ok members
  | .list items =>
    if items.any fun v => v.text? == some "run" then .error (.shape (.noAttribute "list" "get"))
    else .error (.check .missingRun)
  | .str s =>
    if contains s "run" then .error (.shape (.noAttribute "str" "get"))
    else .error (.check .missingRun)
  | v => .error (.shape (.notContainer v.kindName))

end Appwright.Program
