import Appwright.Program.Node

/-!
# Checking program documents

A document is checked before source is generated from it: names are identifiers, steps are distinct
and have something to do, and every statement has its parts. Expressions are looked at only as deep
as their outermost node, and the entries of dictionaries below it.
-/

namespace Appwright.Program

open Entries Node

inductive CheckError where
  | missingRun
  | metaKind
  | importsKind
  | importKind
  | fromModule
  | fromNames
  | importModule
  | importAlias
  | importKeys
  | inputsKind
  | inputName (name : String)
  | stepsKind
  | stepKind
  | stepName
  | duplicateStep (name : String)
  | paramsKind
  | paramNames
  | stepEmpty (name : String)
  | bodyBlock (name : String)
  | bodyKind (name : String)
  | guardKind (name : String)
  | retryKind (name : String)
  | timeoutKind (name : String)
  | runBlock
  | exprKind (got : Node)
  | callArgs
  | callNamed
  | attrShape
  | indexShape
  | listKind
  | tupleKind
  | dictKind
  | dictEntry
  | validateKind
  | parallelKind
  | stmtKind
  | codeKind
  | setShape
  | ifShape
  | ifThen
  | ifElse
  | forShape
  | forBody
  | whileShape
  | whileBody
  | whileElse
  | withShape
  | withItems
  | withContext
  | withAlias
  | withBody
  | assertShape
  | unknownStmt
deriving Repr, Inhabited

def CheckError.message : CheckError → String
  | missingRun => "IR must include a 'run' entry"
  | metaKind => "'meta' must be an object"
  | importsKind => "'imports' must be a list"
  | importKind => "Each import must be a string or object"
  | fromModule => "'from' import must be a string"
  | fromNames => "'import' in from-import must be list of strings"
  | importModule => "'import' must be a string"
  | importAlias => "'as' must be a string"
  | importKeys => "Import objects require 'import' or 'from'"
  | inputsKind => "'inputs' must be an object"
  | inputName name => s!"Input name must be identifier: {name}"
  | stepsKind => "'steps' must be a list"
  | stepKind => "Step must be an object"
  | stepName => "Step requires valid 'name'"
  | duplicateStep name => s!"Duplicate step name: {name}"
  | paramsKind => "Step 'params' must be list of strings"
  | paramNames => "Step params must be identifiers"
  | stepEmpty name => s!"Step '{name}' must include 'body' or 'return'"
  | bodyBlock name => s!"Step '{name}' body block must be list"
  | bodyKind name => s!"Step '{name}' body must be string, list of strings, or block"
  | guardKind name => s!"Step '{name}' guard must be list of strings"
  | retryKind name => s!"Step '{name}' retry must be integer"
  | timeoutKind name => s!"Step '{name}' timeout must be integer seconds"
  | runBlock => "'run.block' must be list"
  | exprKind got => s!"Expression must be literal or object: {got.display}"
  | callArgs => "'call.args' must be list"
  | callNamed => "'call.kwargs' must be object"
  | attrShape => "'attr' must be object with 'attr'"
  | indexShape => "'index' must be object with base/index"
  | listKind => "'list' must be list"
  | tupleKind => "'tuple' must be list"
  | dictKind => "'dict' must be list or object"
  | dictEntry => "'dict' list items must be objects with key/value"
  | validateKind => "'validate' must be object"
  | parallelKind => "'parallel' must be list"
  | stmtKind => "Statement must be object"
  | codeKind => "'python' statement must be string or list"
  | setShape => "'set' statement requires name and value"
  | ifShape => "'if' statement requires cond/then"
  | ifThen => "'if.then' must be list"
  | ifElse => "'if.else' must be list"
  | forShape => "'for' statement requires var/iter/body"
  | forBody => "'for.body' must be list"
  | whileShape => "'while' statement requires cond/body"
  | whileBody => "'while.body' must be list"
  | whileElse => "'while.else' must be list"
  | withShape => "'with' statement requires items/body"
  | withItems => "'with.items' must be list"
  | withContext => "'with.items' entries require context"
  | withAlias => "'with.items.as' must be string"
  | withBody => "'with.body' must be list"
  | assertShape => "'assert' statement requires cond"
  | unknownStmt => "Unknown statement type"

abbrev Checked := Except CheckError Unit

def require (ok : Bool) (complaint : CheckError) : Checked :=
  if ok then .ok () else .error complaint

def checkMember (name : String) (check : Node → Checked) (members : Entries Node) : Checked :=
  match get? name members with
  | none => .ok ()
  | some v => check v

def checkKind (name : String) (test : Node → Bool) (complaint : CheckError) :
    Entries Node → Checked :=
  checkMember name fun v => require (test v) complaint

theorem Node.sizeOf_get? {name : String} {members : Entries Node} {v : Node}
    (h : get? name members = some v) : sizeOf v < sizeOf members := by
  induction members with
  | nil => simp at h
  | cons e rest ih =>
    obtain ⟨k, w⟩ := e
    simp only [get?] at h
    split at h
    · cases h
      simp only [List.cons.sizeOf_spec, Prod.mk.sizeOf_spec]
      omega
    · have := ih h
      simp only [List.cons.sizeOf_spec]
      omega

/-- A member together with the fact that it is smaller than the members it stands among. -/
def Node.child? (name : String) (members : Entries Node) :
    Option { v : Node // sizeOf v < sizeOf members } :=
  match h : get? name members with
  | none => none
  | some v => some ⟨v, sizeOf_get? h⟩

/-! ## Expressions -/

mutual
def checkExpr : Node → Checked
  | .obj members => do
    if has "call" members then
      checkKind "args" isList .callArgs members
      checkKind "kwargs" (holds []) .callNamed members
    checkKind "attr" (holds ["attr"]) .attrShape members
    checkKind "index" (holds ["base", "index"]) .indexShape members
    checkKind "list" isList .listKind members
    checkKind "tuple" isList .tupleKind members
    match child? "dict" members with
    | some ⟨v, _⟩ => checkDict v
    | none => pure ()
    checkKind "validate" (holds []) .validateKind members
    checkKind "parallel" isList .parallelKind members
  | .list items => .error (.exprKind (.list items))
  | .symbol name => .error (.exprKind (.symbol name))
  | _ => .ok ()
termination_by node => sizeOf node
def checkDict : Node → Checked
  | .list items => checkEntries items
  | .obj _ => .ok ()
  | _ => .error .dictKind
termination_by node => sizeOf node
def checkEntries : List Node → Checked
  | [] => .ok ()
  | .obj members :: rest => do
    match child? "key" members, child? "value" members with
    | some ⟨k, _⟩, some ⟨v, _⟩ =>
      checkExpr k
      checkExpr v
      checkEntries rest
    | _, _ => .error .dictEntry
  | _ :: _ => .error .dictEntry
termination_by nodes => sizeOf nodes
decreasing_by
  all_goals simp only [List.cons.sizeOf_spec, obj.sizeOf_spec]
  all_goals omega
end

/-! ## Statements -/

def checkContexts : List Node → Checked
  | [] => .ok ()
  | .obj item :: rest => do
    match get? "context" item with
    | none => .error .withContext
    | some c => checkExpr c
    checkKind "as" isText .withAlias item
    checkContexts rest
  | _ :: _ => .error .withContext

/-- The kinds of statements, in the order in which they are looked for. -/
def stmtKinds : List String :=
  ["python", "set", "expr", "return", "if", "for", "while", "break", "continue", "raise", "with",
   "assert"]

def Node.firstChild? (names : List String) (members : Entries Node) :
    Option (String × { v : Node // sizeOf v < sizeOf members }) :=
  names.findSome? fun name => (child? name members).map fun v => (name, v)

def checkAssign : Node → Checked
  | .obj info =>
    match get? "name" info, get? "value" info with
    | some _, some v => checkExpr v
    | _, _ => .error .setShape
  | _ => .error .setShape

def checkAssert : Node → Checked
  | .obj info => do
    match get? "cond" info with
    | none => .error .assertShape
    | some cond => checkExpr cond
    checkMember "msg" checkExpr info
  | _ => .error .assertShape

mutual
/-- Checks a statement. Its kinds are looked for in a fixed order, and the first that is present
counts. -/
def checkStmt : Node → Checked
  | .obj members =>
    match firstChild? stmtKinds members with
    | none => .error .unknownStmt
    | some (kind, ⟨v, _⟩) =>
      if kind == "python" then
        match v with
        | .str _ | .list _ => .ok ()
        | _ => .error .codeKind
      else if kind == "set" then checkAssign v
      else if kind == "expr" || kind == "return" then checkExpr v
      else if kind == "if" then checkBranches "then" .ifShape .ifThen .ifElse v
      else if kind == "for" then checkFor v
      else if kind == "while" then checkBranches "body" .whileShape .whileBody .whileElse v
      else if kind == "break" || kind == "continue" then .ok ()
      else if kind == "raise" then
        match v with
        | .null => .ok ()
        | v => checkExpr v
      else if kind == "with" then checkWith v
      else checkAssert v
  | _ => .error .stmtKind
termination_by node => 2 * sizeOf node
/-- Checks a statement with a condition, a block under a name and perhaps another under `else`. -/
def checkBranches (name : String) (shape here elsewhere : CheckError) : Node → Checked
  | .obj info =>
    match get? "cond" info, child? name info with
    | some cond, some ⟨body, _⟩ => do
      checkExpr cond
      checkBlock here body
      match child? "else" info with
      | none => pure ()
      | some ⟨elseBody, _⟩ => checkBlock elsewhere elseBody
    | _, _ => .error shape
  | _ => .error shape
termination_by node => 2 * sizeOf node
def checkFor : Node → Checked
  | .obj info =>
    match get? "var" info, get? "iter" info, child? "body" info with
    | some _, some iter, some ⟨body, _⟩ => do
      checkExpr iter
      checkBlock .forBody body
    | _, _, _ => .error .forShape
  | _ => .error .forShape
termination_by node => 2 * sizeOf node
def checkWith : Node → Checked
  | .obj info =>
    match get? "items" info, child? "body" info with
    | some items, some ⟨body, _⟩ => do
      match items with
      | .list (c :: cs) => checkContexts (c :: cs)
      | _ => .error .withItems
      checkBlock .withBody body
    | _, _ => .error .withShape
  | _ => .error .withShape
termination_by node => 2 * sizeOf node
def checkBlock (complaint : CheckError) : Node → Checked
  | .list stmts => checkStmts stmts
  | _ => .error complaint
termination_by node => 2 * sizeOf node
def checkStmts : List Node → Checked
  | [] => .ok ()
  | s :: rest => do
    checkStmt s
    checkStmts rest
termination_by nodes => 2 * sizeOf nodes + 1
end

/-! ## Programs -/

def checkImport : Node → Checked
  | .str _ => .ok ()
  | .obj item =>
    match get? "from" item with
    | some module => do
      require module.isText .fromModule
      match get? "import" item with
      | some (.list names) => require (names.all isText) .fromNames
      | _ => .error .fromNames
    | none =>
      match get? "import" item with
      | some module => do
        require module.isText .importModule
        checkKind "as" isText .importAlias item
      | none => .error .importKeys
  | _ => .error .importKind

def checkEach (check : Node → Checked) : List Node → Checked
  | [] => .ok ()
  | v :: rest => do
    check v
    checkEach check rest

def checkInputNames : Entries Node → Checked
  | [] => .ok ()
  | (k, _) :: rest => do
    require (Text.isIdentLine k) (.inputName k)
    checkInputNames rest

/-- What stands under `python` in the body of a step, or else the body itself. -/
def Node.codeOr : Node → Node
  | .obj members => (get? "python" members).getD (.obj members)
  | v => v

def Node.isTexts : Node → Bool
  | .list items => items.all isText
  | _ => false

def checkBody (name : String) (body : Node) : Checked :=
  match body.codeOr with
  | .obj members =>
    match get? "block" members with
    | some (.list stmts) => checkStmts stmts
    | some _ => .error (.bodyBlock name)
    | none => .error (.bodyKind name)
  | .str _ => .ok ()
  | v => require v.isTexts (.bodyKind name)

def checkStepName (seen : List String) (step : Entries Node) : Except CheckError String :=
  match get? "name" step with
  | some (.str name) =>
    if !Text.isIdentLine name then .error .stepName
    else if seen.contains name then .error (.duplicateStep name)
    else .ok name
  | _ => .error .stepName

def checkParams (params : Node) : Checked :=
  match params with
  | .list items =>
    match items.mapM text? with
    | none => .error .paramsKind
    | some names => require (names.all Text.isIdentLine) .paramNames
  | _ => .error .paramsKind

def checkStep (seen : List String) : Node → Except CheckError String
  | .obj step => do
    let name ← checkStepName seen step
    checkParams ((get? "params" step).getD (.list []))
    require (has "body" step || has "return" step) (.stepEmpty name)
    checkMember "body" (checkBody name) step
    checkKind "guard" isTexts (.guardKind name) step
    checkKind "retry" isWhole (.retryKind name) step
    checkKind "timeout" isWhole (.timeoutKind name) step
    return name
  | _ => .error .stepKind

def checkSteps (seen : List String) : List Node → Checked
  | [] => .ok ()
  | s :: rest => do
    let name ← checkStep seen s
    checkSteps (name :: seen) rest

def checkRun : Node → Checked
  | .obj members =>
    match get? "block" members with
    | some (.list stmts) => checkStmts stmts
    | some _ => .error .runBlock
    | none => checkExpr (.obj members)
  | v => checkExpr v

def check (program : Entries Node) : Checked := do
  match get? "run" program with
  | none => .error .missingRun
  | some run =>
    match get? "meta" program with
    | none | some .null | some (.obj _) => pure ()
    | some _ => .error .metaKind
    match get? "imports" program with
    | none => pure ()
    | some (.list items) => checkEach checkImport items
    | some _ => .error .importsKind
    match get? "inputs" program with
    | none | some .null => pure ()
    | some (.obj inputs) => checkInputNames inputs
    | some _ => .error .inputsKind
    match get? "steps" program with
    | none | some .null => pure ()
    | some (.list steps) => checkSteps [] steps
    | some _ => .error .stepsKind
    checkRun run

end Appwright.Program
