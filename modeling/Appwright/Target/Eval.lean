import Appwright.Target.Library

/-!
# Running statements

A function's parameters and the names it assigns are its own; every other name is one of the
program, or else one that is always at hand. Fuel bounds how deep calls and how long loops go.
-/

namespace Appwright.Target

/-- The names that statements assign. The first argument is fuel. -/
def assignedNames : Nat → List Stmt → List String
  | 0, _ => []
  | _, [] => []
  | fuel + 1, stmt :: rest =>
    let own := match stmt with
      | .assign targets _ => targets
      | .branch _ yes no => assignedNames fuel yes ++ assignedNames fuel no
      | .loop targets _ body => targets ++ assignedNames fuel body
      | .repeated _ body otherwise => assignedNames fuel body ++ assignedNames fuel otherwise
      | .within _ targets => targets
      | .define _ name _ _ => [name]
      | .use name _ => [name]
      | _ => []
    own ++ assignedNames fuel rest

/-- Where names are looked up: at the top of a program, in a function with names of its own, or in a
delayed expression inside such a function. -/
inductive Scope where
  | top
  | inside (names : List String)
  | delayed (names : List String)
deriving Repr

inductive Next where
  | onward
  | leave
  | again
  | done (v : Value)

def standing? (name : String) : Option Value :=
  ((Entries.get? name Builtin.all).map Value.builtin).or <|
  ((Entries.get? name BaseType.all).map Value.base).or <|
  ((Entries.get? name ErrorKind.named).bind fun k =>
    if [ErrorKind.guard, .jsonDecode, .timeout].contains k then none
    else some (.failure k))

def globalName (name : String) : Calc Value := do
  match (← get).globals.get? name with
  | some v => return v
  | none =>
    match standing? name with
    | some v => return v
    | none => throw ⟨.name, "name " ++ tick name ++ " is not defined"⟩

def valueOfName (scope : Scope) (name : String) : Calc Value := do
  let own (names : List String) (unbound : Fault) : Calc Value := do
    if names.contains name then
      match (← get).locals.get? name with
      | some v => return v
      | none => throw unbound
    else globalName name
  match scope with
  | .top => globalName name
  | .inside names =>
    own names ⟨.unboundLocal, "cannot access local variable " ++ tick name ++
      " where it is not associated with a value"⟩
  | .delayed names =>
    own names ⟨.name, "cannot access free variable " ++ tick name ++
      " where it is not associated with a value in enclosing scope"⟩

def assign (scope : Scope) (name : String) (v : Value) : Calc Unit :=
  match scope with
  | .top => modify fun m => { m with globals := m.globals.put name v }
  | _ => modify fun m => { m with locals := m.locals.put name v }

def assignAll (scope : Scope) (targets : List String) (v : Value) : Calc Unit := do
  match targets with
  | [name] => assign scope name v
  | names => do
    match ← itemsOf? v with
    | none => throw (.ofType ("cannot unpack non-iterable " ++ v.kindName ++ " object"))
    | some items =>
      let expected := Text.ofNat names.length
      if items.length < names.length then
        throw (.ofValue ("not enough values to unpack (expected " ++ expected ++ ", got " ++
          Text.ofNat items.length ++ ")"))
      if names.length < items.length then
        throw (.ofValue ("too many values to unpack (expected " ++ expected ++ ")"))
      for (name, item) in names.zip items do
        assign scope name item

def callLimit : Nat := 490

def tooDeep : Fault :=
  ⟨.recursion, "maximum recursion depth exceeded"⟩

/-- Runs something with names of its own; afterwards the names from before are back. -/
def withLocals {α : Type} (locals : Entries Value) (run : Eval α) : Eval α := do
  let machine := (← get).rest
  if callLimit ≤ machine.calls then throw tooDeep
  modify fun s => { s with rest := { s.rest with locals, calls := machine.calls + 1 } }
  let outcome ← caught run
  modify fun s => { s with rest := { s.rest with locals := machine.locals, calls := machine.calls } }
  ofExcept outcome

def Scope.names? : Scope → Option (List String)
  | .top => none
  | .inside names => some names
  | .delayed names => some names

def settingsOf (named : Entries Value) : Calc Trace.Settings := do
  let setting (name : String) (ifNone : Json) : Calc Json := do
    match named.get? name with
    | none => return ifNone
    | some v => return ((← spelled v).toJson { anyLength := true }).toOption.getD .null
  return {
    name := ""
    retry := ← setting "retry" (.int 0)
    timeout := ← setting "timeout" .null
    guard := ← setting "guard" .null
    produces := ← setting "produces" .null }

def noArguments (word : String) (args : List Value) : Calc Unit := do
  if !args.isEmpty then throw (Signature.tooMany { name := word, required := [] } args.length)

def makeStep (args : List Value) (named : Entries Value) : Calc Value := do
  if let some (n, _) := named.find? fun e =>
      !(["retry", "timeout", "guard", "produces"].contains e.1) then
    throw (.ofType ("step() got an unexpected keyword argument " ++ tick n))
  noArguments "step" args
  return .decorator (← settingsOf named)

mutual
def evalExpr (scope : Scope) : Nat → Expr → Eval Value
  | 0, _ => throw tooDeep
  | fuel + 1, e => do
    match e with
    | .name s => valueOfName scope s
    | .none => return .none
    | .bool b => return .bool b
    | .int n => return .int n
    | .float x => return .float x
    | .str s => return .str s
    | .list items => do newList (← evalItems scope fuel items)
    | .tuple items => return .tuple (← evalItems scope fuel items)
    | .dict entries => do
      let pairs ← evalEntries scope fuel entries
      return .dict (← pairs.foldlM (fun es e => putEntry es e.1 e.2) [])
    | .attr base name => do
      let v ← evalExpr scope fuel base
      attributeOf v name
    | .index base key => do
      let v ← evalExpr scope fuel base
      let k ← evalExpr scope fuel key
      indexed v k
    | .call function args named => do
      let f ← evalExpr scope fuel function
      let args ← evalItems scope fuel args
      let named ← evalNamed scope fuel named
      call fuel f args named
    | .neg e => do
      let v ← evalExpr scope fuel e
      negated v
    | .not e => do
      let v ← evalExpr scope fuel e
      return .bool !(← isTrue v)
    | .binary .and left right => do
      let v ← evalExpr scope fuel left
      if ← isTrue v then evalExpr scope fuel right else return v
    | .binary .or left right => do
      let v ← evalExpr scope fuel left
      if ← isTrue v then return v else evalExpr scope fuel right
    | .binary op left right => do
      let x ← evalExpr scope fuel left
      let y ← evalExpr scope fuel right
      applyOperator op x y
    | .delayed body => return .delayed body scope.names? (← get).rest.locals
def evalItems (scope : Scope) : Nat → List Expr → Eval (List Value)
  | 0, _ => throw tooDeep
  | _, [] => pure []
  | fuel + 1, e :: rest => do
    let v ← evalExpr scope fuel e
    return v :: (← evalItems scope fuel rest)
def evalEntries (scope : Scope) : Nat → List (Expr × Expr) → Eval (List (Value × Value))
  | 0, _ => throw tooDeep
  | _, [] => pure []
  | fuel + 1, (k, e) :: rest => do
    let key ← evalExpr scope fuel k
    let v ← evalExpr scope fuel e
    return (key, v) :: (← evalEntries scope fuel rest)
def evalNamed (scope : Scope) : Nat → List (String × Expr) → Eval (Entries Value)
  | 0, _ => throw tooDeep
  | _, [] => pure []
  | fuel + 1, (n, e) :: rest => do
    let v ← evalExpr scope fuel e
    return (n, v) :: (← evalNamed scope fuel rest)
def call : Nat → Value → List Value → Entries Value → Eval Value
  | 0, _, _, _ => throw tooDeep
  | fuel + 1, f, args, named => do
    match f with
    | .builtin f => callBuiltin f args named
    | .base t => callType t args named
    | .method self name => callMethod self name args named
    | .failure k => do
      noNames k.word named
      return .error k args
    | .library .parallel => do
      let (bound, _) ← ofExcept (Library.parallel.signature.bind args named)
      match bound.get? "tasks" with
      | some (.dict tasks) => do
        let outcomes ← runTasks fuel tasks
        let results ← outcomes.mapM fun (n, outcome) => return (n, ← ofExcept outcome)
        return .dict results
      | v => throw (noAttribute (v.getD .none) "items")
    | .library f => callLibrary f args named
    | .function f =>
      match f.settings with
      | none => callFunction fuel f args named
      | some settings =>
        Trace.callStep failures textOf settings (callFunction fuel f args named)
    | .delayed body names locals => do
      noArguments "<lambda>" args
      withLocals locals <|
        match names with
        | some names => evalExpr (.delayed names) fuel body
        | none => evalExpr .top fuel body
    | .stepMaker => makeStep args named
    | .decorator settings =>
      match args with
      | [.function f] =>
        return .function { f with settings := some { settings with name := f.name } }
      | _ => return .none
    | f => throw (.ofType (tick f.kindName ++ " object is not callable"))
def runTasks : Nat → List (Value × Value) → Eval (List (Value × Except Fault Value))
  | 0, _ => throw tooDeep
  | _, [] => pure []
  | fuel + 1, (name, task) :: rest => do
    let outcome ← caught (call fuel task [] [])
    return (name, outcome) :: (← runTasks fuel rest)
def callFunction : Nat → Function → List Value → Entries Value → Eval Value
  | 0, _, _, _ => throw tooDeep
  | fuel + 1, f, args, named => do
    let signature : Signature := { name := f.name, required := f.params }
    let (bound, _) ← ofExcept (signature.bind args named)
    let names := f.params ++ assignedNames fuel f.body
    match ← withLocals bound (run (.inside names) fuel f.body) with
    | .done v => return v
    | _ => return .none
def run (scope : Scope) : Nat → List Stmt → Eval Next
  | 0, _ => throw tooDeep
  | _, [] => pure .onward
  | fuel + 1, stmt :: rest => do
    match ← runOne scope fuel stmt with
    | .onward => run scope fuel rest
    | next => return next
def runOne (scope : Scope) : Nat → Stmt → Eval Next
  | 0, _ => throw tooDeep
  | fuel + 1, stmt => do
    match stmt with
    | .expr e => do
      let _ ← evalExpr scope fuel e
      return .onward
    | .assign targets e => do
      let v ← evalExpr scope fuel e
      assignAll scope targets v
      return .onward
    | .ret e => do
      let v ← evalExpr scope fuel e
      return .done v
    | .pass => return .onward
    | .branch test yes no => do
      let v ← evalExpr scope fuel test
      if ← isTrue v then run scope fuel yes else run scope fuel no
    | .loop targets items body => do
      let v ← evalExpr scope fuel items
      match v with
      | .list cell => visitCell scope fuel targets body cell 0
      | v => do
        let values ← itemsOf v
        visit scope fuel targets body values
    | .repeated test body otherwise => repeatWhile scope fuel test body otherwise
    | .break => return .leave
    | .continue => return .again
    | .raise none => throw ⟨.runtime, "No active exception to reraise"⟩
    | .raise (some e) => do
      match ← evalExpr scope fuel e with
      | .error k args => throw (← faultOf k args)
      | .failure k => throw ⟨k, ""⟩
      | _ => throw (.ofType "exceptions must derive from BaseException")
    | .assert test message => do
      let v ← evalExpr scope fuel test
      if ← isTrue v then return .onward
      match message with
      | none => throw ⟨.assertion, ""⟩
      | some e => do
        let m ← evalExpr scope fuel e
        throw (← faultOf .assertion [m])
    | .within context _ => do
      let v ← evalExpr scope fuel context
      throw (.ofType (tick v.kindName ++ " object does not support the context manager protocol"))
    | .define decorator name params body => do
      let wrap ← match decorator with
        | none => pure none
        | some e => some <$> evalExpr scope fuel e
      let identity := (← get).rest.definitions
      modify fun s => { s with rest := { s.rest with definitions := identity + 1 } }
      let f : Value := .function { name, params, body, settings := none, identity }
      match wrap with
      | none => assign scope name f
      | some w => do
        let v ← call fuel w [f] []
        assign scope name v
      return .onward
    | .use name module => do
      let v : Value := if module == "vibelang.runtime.step" then .stepMaker else .module module
      assign scope name v
      return .onward
def visit (scope : Scope) : Nat → List String → List Stmt → List Value → Eval Next
  | 0, _, _, _ => throw tooDeep
  | _, _, _, [] => pure .onward
  | fuel + 1, targets, body, v :: rest => do
    assignAll scope targets v
    match ← run scope fuel body with
    | .leave => return .onward
    | .done v => return .done v
    | _ => visit scope fuel targets body rest
/-- Runs a loop's body for each item of a list from an index on; items appended meanwhile are visited
too. -/
def visitCell (scope : Scope) : Nat → List String → List Stmt → Nat → Nat → Eval Next
  | 0, _, _, _, _ => throw tooDeep
  | fuel + 1, targets, body, cell, i => do
    match (← cellItems cell)[i]? with
    | none => return .onward
    | some v => do
      assignAll scope targets v
      match ← run scope fuel body with
      | .leave => return .onward
      | .done v => return .done v
      | _ => visitCell scope fuel targets body cell (i + 1)
/-- Runs a loop's body while a test holds; other statements follow if the loop is not left. -/
def repeatWhile (scope : Scope) : Nat → Expr → List Stmt → List Stmt → Eval Next
  | 0, _, _, _ => throw tooDeep
  | fuel + 1, test, body, otherwise => do
    let v ← evalExpr scope fuel test
    if ← isTrue v then
      match ← run scope fuel body with
      | .leave => return .onward
      | .done v => return .done v
      | _ => repeatWhile scope fuel test body otherwise
    else run scope fuel otherwise
end

end Appwright.Target
