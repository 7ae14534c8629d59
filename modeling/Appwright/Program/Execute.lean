import Appwright.Program.Source
import Appwright.Target.Eval

/-!
# Running programs

A program is compiled, and what was compiled is run with the program's inputs, some of which may be
given anew. A report tells what happened.
-/

namespace Appwright.Program

open Target

/-! ## Programs from files

A file whose name ends in `.vbl` holds a program in forms; any other holds a JSON document.
-/

inductive LoadError where
  | forms (cause : ParseError)
  | json (cause : Json.ReadError)
  | notObject
deriving Repr

def LoadError.message : LoadError → String
  | forms cause => cause.message
  | json cause => cause.message
  | notObject => "Top-level IR must be an object"

def holdsForms (name : String) : Bool :=
  Text.endsWith name ".vbl"

def load (name text : String) : Except LoadError (Entries Node) :=
  if holdsForms name then ((parse text).mapError .forms).map Tree.toMembers
  else
    match Json.read text with
    | .ok (.obj members) => .ok (Node.ofMembers members)
    | .ok _ => .error .notObject
    | .error e => .error (.json e)

/-! ## Runs -/

open Target (Data Fault Value Eval Machine)

inductive RunError where
  | notDocument (kind : String)
  | badInputs (cause : Fault)
  | compile (cause : CompileError)
  | failed (cause : Fault)
deriving Repr

def RunError.message : RunError → String
  | notDocument kind => "'" ++ kind ++ "' object has no attribute 'get'"
  | badInputs cause => cause.message
  | compile cause => cause.message
  | failed cause => cause.message

/-- What running a program comes to: the result or what went wrong, and the report if the run got so
far as to have one. -/
structure Outcome where
  result : Except RunError Data
  report : Option (Trace.Report Data)
  /-- The report that is still current afterwards: later steps and messages are noted in it. -/
  current : Option (Trace.Report Data) := none

def pairEntries (position : Nat) (es : Entries Data) : List Data → Except Fault (Entries Data)
  | [] => .ok es
  | item :: rest => do
    let parts ← match item with
      | .list parts => pure parts
      | .str s => pure (s.toList.map fun c => Data.str (String.singleton c))
      | .dict entries => pure (entries.map Prod.fst)
      | _ => throw (.ofType ("cannot convert dictionary update sequence element #" ++
          Text.ofNat position ++ " to a sequence"))
    match parts with
    | [.str k, v] => pairEntries (position + 1) (es.put k v) rest
    | [k, _] => do
      k.checkKey
      pairEntries (position + 1) es rest
    | parts => throw (.ofValue ("dictionary update sequence element #" ++ Text.ofNat position ++
        " has length " ++ Text.ofNat parts.length ++ "; 2 is required"))

def namedInputs (v : Node) : Except Fault (Entries Data) :=
  match v with
  | .obj members => .ok (members.map fun m => (m.1, Data.ofNode m.2))
  | .list items => pairEntries 0 [] (Data.ofNodes items)
  | .str s => pairEntries 0 [] (s.toList.map fun c => .str (String.singleton c))
  | .symbol _ => .error (.ofType "'Symbol' object is not iterable")
  | v => .error (.ofType ("'" ++ v.kindName ++ "' object is not iterable"))

/-- A document's member unless it counts as false. -/
def truthyMember (name : String) (program : Entries Node) : Node :=
  match program.get? name with
  | some v => if v.truthy then v else .obj []
  | none => .obj []

def inputsOf (program : Entries Node) (given : Node) : Except Fault (Entries Data) := do
  let own ← namedInputs (truthyMember "inputs" program)
  if given.truthy then return own.update (← namedInputs given)
  return own

def runFuel : Nat := 1000000

def runSource (source : String) (inputs : Entries Data) : Eval Value := do
  let entries ← inputs.mapM fun e => return ((Value.str e.1, ← fresh e.2) : Value × Value)
  assign .top "__name__" (.str "__vbl__")
  assign .top "__vbl_inputs__" (.dict entries)
  let stmts ← Target.ofExcept (Target.readSource source)
  let _ ← run .top runFuel stmts
  let result := ((← get).rest.globals.get? "__vbl_result__").getD .none
  modify fun s => { s with report := s.report.map fun r => r.finish result s.clock }
  return result

def spellReport (cells : Array (List Value)) (r : Trace.Report Value) : Trace.Report Data :=
  r.map fun v => v.data cells dataDepth

def opened (about : Data) (clock : Float) (environment : Outbound.Environment) :
    Trace.State Machine Value :=
  match valueOf about { environment } with
  | .ok about rest => { clock, report := some { about, startedAt := clock }, rest }
  | .error _ rest => { clock, rest }

def executeMembers (program : Entries Node) (given : Node) (clock : Float)
    (environment : Outbound.Environment) : Outcome :=
  match inputsOf program given with
  | .error e => { result := .error (.badInputs e), report := none }
  | .ok inputs =>
    let about := Data.ofNode (truthyMember "meta" program)
    match compile program with
    | .error e =>
      let report := some { about, startedAt := clock }
      { result := .error (.compile e), report, current := report }
    | .ok source =>
      match runSource source inputs (opened about clock environment) with
      | .ok v s =>
        { result := .ok (v.data s.rest.cells dataDepth)
          report := s.report.map (spellReport s.rest.cells) }
      | .error e s =>
        let report := s.report.map (spellReport s.rest.cells)
        -- A program whose source cannot be read fails before its report would be taken away.
        let current := if (readSource source).isOk then none else report
        { result := .error (.failed e), report, current }

def execute (program given : Node) (clock : Float) (environment : Outbound.Environment) :
    Outcome :=
  match program with
  | .obj members => executeMembers members given clock environment
  | v => { result := .error (.notDocument v.kindName), report := none }

end Appwright.Program
