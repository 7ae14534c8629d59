import Appwright.Program.Ast

/-!
# From forms to programs

Reads expressions, statements and whole programs off the forms of a program text. Each form that is
not understood is refused with the reason; of several reasons the one met first from the left
counts.
-/

namespace Appwright.Program

open Sexpr (Leaf TokenError)

inductive FormError where
  | expectedSymbol (got : Form)
  | emptyExpression
  | operands (op : String)
  | attrShape
  | indexShape
  | dictEntry
  | codeExpr
  | validateEntry
  | validateKey (key : String)
  | validateData
  | validateSchema
  | parallelTask
  | callTarget
  | namedArgument
  | assignShape
  | returnValue
  | evalShape
  | codeLines
  | branchShape
  | branchPart
  | forShape
  | forBody
  | forTag
  | loopShape
  | loopBody
  | throwShape
  | checkShape
  | withShape
  | withItems
  | withItem
  | withBody
  | topLevelList
  | topLevelHead
  | topLevelForm (name : String)
  | metaEntry
  | importShape
  | fromShape
  | inputShape
  | inputsEntry
  | stepName
  | stepOption
  | stepInteger (key : String)
  | guardEntry
  | producesValue
  | mixedBody
  | returnExpression
  | stepProperty (key : String)
  | runShape
  | missingRun
deriving Repr, Inhabited

def FormError.message : FormError → String
  | expectedSymbol got => s!"Expected symbol, got: {got.display}"
  | emptyExpression => "Empty expression list"
  | operands op => s!"Operator {op} requires operands"
  | attrShape => "attr requires base and attr name"
  | indexShape => "index requires base and index"
  | dictEntry => "dict entries must be (key value)"
  | codeExpr => "python expression requires a string"
  | validateEntry => "validate entries must be (schema X) or (data X)"
  | validateKey key => s!"Unknown validate key: {key}"
  | validateData => "validate requires data"
  | validateSchema => "validate requires schema or model"
  | parallelTask => "parallel tasks must be (name expr)"
  | callTarget => "call requires function"
  | namedArgument => "kw requires key and value"
  | assignShape => "set requires name and value"
  | returnValue => "return requires value"
  | evalShape => "expr requires expression"
  | codeLines => "python statements must be strings"
  | branchShape => "if requires condition and body"
  | branchPart => "if body must be (then ...) or (else ...)"
  | forShape => "for requires var, iter, and body"
  | forBody => "for body must be (do ...) "
  | forTag => "for body must be (do ...)"
  | loopShape => "while requires condition and body"
  | loopBody => "while body must be (do ...)"
  | throwShape => "raise takes zero or one argument"
  | checkShape => "assert requires condition"
  | withShape => "with requires items and body"
  | withItems => "with items must be a list"
  | withItem => "with item must be (context var?)"
  | withBody => "with body must be (do ...)"
  | topLevelList => "Top-level forms must be lists"
  | topLevelHead => "Top-level forms must start with a symbol"
  | topLevelForm name => s!"Unknown top-level form: {name}"
  | metaEntry => "meta entries must be (key value)"
  | importShape => "import form: (import module) or (import module as alias)"
  | fromShape => "from form: (from module import name1 name2)"
  | inputShape => "input form: (input name value)"
  | inputsEntry => "inputs entries must be (name value)"
  | stepName => "step requires a name"
  | stepOption => "step options must be lists"
  | stepInteger key => s!"{key} requires integer"
  | guardEntry => "guard entries must be strings"
  | producesValue => "produces requires value"
  | mixedBody => "body must be all strings or all statements"
  | returnExpression => "return requires expression"
  | stepProperty key => s!"Unknown step attribute: {key}"
  | runShape => "run requires single expression or block"
  | missingRun => "Program requires a run form"

abbrev Parsed (α : Type) := Except FormError α

def binaryOperators : List String :=
  ["+", "-", "*", "/", "//", "%", "**", "and", "or", "==", "!=", "<", ">", "<=", ">="]

def symbol (f : Form) : Parsed String :=
  match f.symbol? with
  | some name => .ok name
  | none => .error (.expectedSymbol f)

def allTexts (complaint : FormError) : List Form → Parsed (List String)
  | [] => .ok []
  | f :: fs =>
    match f.text? with
    | none => .error complaint
    | some s => (allTexts complaint fs).map (s :: ·)

/-! ## Expressions -/

/-- The three parts that the entries of a labelled `validate` form can give. -/
structure ValidateParts where
  schema : Option Expr := none
  /-- Whether what stands in `schema` is a model. -/
  isModel : Bool := false
  data : Option Expr := none

def ValidateParts.toExpr (p : ValidateParts) : Parsed Expr :=
  match p.data, p.schema with
  | none, _ => .error .validateData
  | some _, none => .error .validateSchema
  | some d, some s => .ok (if p.isModel then .validateModel s d else .validateSchema s d)

mutual
def Expr.ofForm : Form → Parsed Expr
  | .leaf (.symbol n) => .ok (.name n)
  | .leaf v => .ok (.literal v)
  | .list [] => .error .emptyExpression
  | .list (.leaf (.symbol head) :: args) =>
    if binaryOperators.contains head then
      match args with
      | left :: right :: more => do
        let l ← Expr.ofForm left
        let r ← Expr.ofForm right
        Expr.chain head (.binary head l r) more
      | _ => .error (.operands head)
    else if head == "attr" then
      match args with
      | [base, member] => do
        let b ← Expr.ofForm base
        let a ← symbol member
        return .attr b a
      | _ => .error .attrShape
    else if head == "index" then
      match args with
      | [base, key] => do
        let b ← Expr.ofForm base
        let i ← Expr.ofForm key
        return .index b i
      | _ => .error .indexShape
    else if head == "list" then return .list (← Expr.ofForms args)
    else if head == "tuple" then return .tuple (← Expr.ofForms args)
    else if head == "dict" then return .dict (← Expr.entries args)
    else if head == "python" then
      match args with
      | [.leaf (.str source)] => .ok (.code source)
      | _ => .error .codeExpr
    else if head == "validate" then
      match args with
      | [schema, data] => do
        let s ← Expr.ofForm schema
        let d ← Expr.ofForm data
        return .validateSchema s d
      | entries => do
        let parts ← Expr.validateParts {} entries
        parts.toExpr
    else if head == "parallel" then return .parallel (← Expr.tasks args)
    else if head == "call" then
      match args with
      | [] => .error .callTarget
      | func :: rest => do
        let f ← Expr.ofForm func
        let (args, named) ← Expr.arguments [] [] rest
        return .apply f args named
    else do
      let (args, named) ← Expr.arguments [] [] args
      return .invoke head args named
  | .list (func :: args) => do
    let f ← Expr.ofForm func
    let (args, named) ← Expr.arguments [] [] args
    return .apply f args named
def Expr.ofForms : List Form → Parsed (List Expr)
  | [] => .ok []
  | f :: fs => do
    let e ← Expr.ofForm f
    let es ← Expr.ofForms fs
    return e :: es
def Expr.chain (op : String) (left : Expr) : List Form → Parsed Expr
  | [] => .ok left
  | f :: fs => do
    let right ← Expr.ofForm f
    Expr.chain op (.binary op left right) fs
def Expr.entries : List Form → Parsed (List (Expr × Expr))
  | [] => .ok []
  | .list [key, value] :: fs => do
    let k ← Expr.ofForm key
    let v ← Expr.ofForm value
    let es ← Expr.entries fs
    return (k, v) :: es
  | _ :: _ => .error .dictEntry
def Expr.validateParts (parts : ValidateParts) : List Form → Parsed ValidateParts
  | [] => .ok parts
  | .list [label, value] :: fs => do
    let key ← symbol label
    if key == "schema" then
      let e ← Expr.ofForm value
      Expr.validateParts { parts with schema := some e, isModel := false } fs
    else if key == "data" then
      let e ← Expr.ofForm value
      Expr.validateParts { parts with data := some e } fs
    else if key == "model" then
      let e ← Expr.ofForm value
      Expr.validateParts { parts with schema := some e, isModel := true } fs
    else .error (.validateKey key)
  | _ :: _ => .error .validateEntry
def Expr.tasks : List Form → Parsed (List (String × Expr))
  | [] => .ok []
  | .list [label, value] :: fs => do
    let n ← symbol label
    let e ← Expr.ofForm value
    let es ← Expr.tasks fs
    return (n, e) :: es
  | _ :: _ => .error .parallelTask
def Expr.arguments (args : List Expr) (named : Entries Expr) :
    List Form → Parsed (List Expr × Entries Expr)
  | [] => .ok (args.reverse, named)
  | .list (.leaf (.symbol "kw") :: parts) :: fs =>
    match parts with
    | [key, value] => do
      let v ← Expr.ofForm value
      let k ← symbol key
      Expr.arguments args (Entries.put k v named) fs
    | _ => .error .namedArgument
  | f :: fs => do
    let e ← Expr.ofForm f
    Expr.arguments (e :: args) named fs
end

/-! ## Statements -/

/-- Reads one context of a `with` statement: what follows the name is not looked at. -/
def Context.ofForms : List Form → Parsed Context
  | [] => .error .withItem
  | [value] => return ⟨← Expr.ofForm value, none⟩
  | value :: name :: _ => do
    let v ← Expr.ofForm value
    let n ← symbol name
    return ⟨v, some n⟩

def Context.ofList : List Form → Parsed (List Context)
  | [] => .ok []
  | .list item :: fs => do
    let c ← Context.ofForms item
    let cs ← Context.ofList fs
    return c :: cs
  | _ :: _ => .error .withItem

def Context.ofForm : Form → Parsed (List Context)
  | .list (.list item :: fs) => Context.ofList (.list item :: fs)
  | .list (f :: fs) => return [← Context.ofForms (f :: fs)]
  | _ => .error .withItems

def Stmt.ofAssign : List Form → Parsed Stmt
  | [name, value] => do
    let n ← symbol name
    let v ← Expr.ofForm value
    return .assign n v
  | _ => .error .assignShape

def Stmt.ofReturn : List Form → Parsed Stmt
  | [value] => return .ret (← Expr.ofForm value)
  | _ => .error .returnValue

def Stmt.ofEval : List Form → Parsed Stmt
  | [value] => return .eval (← Expr.ofForm value)
  | _ => .error .evalShape

def Stmt.ofThrow : List Form → Parsed Stmt
  | [] => .ok (.throw none)
  | [value] => return .throw (some (← Expr.ofForm value))
  | _ => .error .throwShape

/-- Reads an assertion: what follows its message is not looked at. -/
def Stmt.ofCheck : List Form → Parsed Stmt
  | [] => .error .checkShape
  | [cond] => return .check (← Expr.ofForm cond) none
  | cond :: message :: _ => do
    let c ← Expr.ofForm cond
    let m ← Expr.ofForm message
    return .check c (some m)

mutual
def Stmt.ofForm : Form → Parsed Stmt
  | .list (.leaf (.symbol head) :: args) =>
    if head == "set" then Stmt.ofAssign args
    else if head == "return" then Stmt.ofReturn args
    else if head == "expr" then Stmt.ofEval args
    else if head == "python" then return .code (← allTexts .codeLines args)
    else if head == "if" then Stmt.ofIf args
    else if head == "for" then Stmt.ofFor args
    else if head == "while" then Stmt.ofWhile args
    else if head == "break" then .ok .leave
    else if head == "continue" then .ok .next
    else if head == "raise" then Stmt.ofThrow args
    else if head == "assert" then Stmt.ofCheck args
    else if head == "with" then Stmt.ofWith args
    else return .eval (← Expr.ofForm (.list (.leaf (.symbol head) :: args)))
  | f => return .eval (← Expr.ofForm f)
def Stmt.ofIf : List Form → Parsed Stmt
  | cond :: part :: parts => do
    let c ← Expr.ofForm cond
    let (t, e) ← Stmt.branches [] [] (part :: parts)
    return .branch c t e
  | _ => .error .branchShape
/-- Reads a `for`: what follows its body is not looked at. -/
def Stmt.ofFor : List Form → Parsed Stmt
  | var :: iter :: body :: _ => do
    let v ← symbol var
    let i ← Expr.ofForm iter
    return .forEach v i (← Stmt.ofBody .forBody .forTag body)
  | _ => .error .forShape
def Stmt.ofWhile : List Form → Parsed Stmt
  | cond :: body :: _ => do
    let c ← Expr.ofForm cond
    return .loop c (← Stmt.ofBody .loopBody .loopBody body)
  | _ => .error .loopShape
def Stmt.ofWith : List Form → Parsed Stmt
  | items :: body :: _ => do
    let cs ← Context.ofForm items
    return .withContexts cs (← Stmt.ofBody .withBody .withBody body)
  | _ => .error .withShape
/-- Reads a body `(do …)`, with the complaints about one that is no such list and about another
word in front. -/
def Stmt.ofBody (shape word : FormError) : Form → Parsed (List Stmt)
  | .list (tag :: body) => do
    let t ← symbol tag
    if t != "do" then .error word else Stmt.ofForms body
  | _ => .error shape
def Stmt.ofForms : List Form → Parsed (List Stmt)
  | [] => .ok []
  | f :: fs => do
    let s ← Stmt.ofForm f
    let ss ← Stmt.ofForms fs
    return s :: ss
/-- Reads the parts of an `if`; a later part replaces an earlier one of its kind. -/
def Stmt.branches (thenBody elseBody : List Stmt) : List Form → Parsed (List Stmt × List Stmt)
  | [] => .ok (thenBody, elseBody)
  | .list (tag :: body) :: fs => do
    let t ← symbol tag
    if t == "then" || t == "do" then
      let b ← Stmt.ofForms body
      Stmt.branches b elseBody fs
    else if t == "else" then
      let b ← Stmt.ofForms body
      Stmt.branches thenBody b fs
    else .error .branchPart
  | _ :: _ => .error .branchPart
end

/-! ## Programs -/

/-- Named data: entries of two parts, the first a symbol. -/
def dataEntries (complaint : FormError) (known : Entries Form) :
    List Form → Parsed (Entries Form)
  | [] => .ok known
  | .list [key, value] :: fs => do
    let k ← symbol key
    dataEntries complaint (Entries.put k value known) fs
  | _ :: _ => .error complaint

def symbols : List Form → Parsed (List String)
  | [] => .ok []
  | f :: fs => do
    let n ← symbol f
    let ns ← symbols fs
    return n :: ns

def wholeNumber (key : String) : List Form → Parsed Property
  | [.leaf (.int n)] => .ok (.number (.int n))
  | [.leaf (.bool b)] => .ok (.number (.bool b))
  | _ => .error (.stepInteger key)

def Body.ofForms (parts : List Form) : Parsed Body :=
  match parts.mapM Form.text? with
  | some texts => .ok (.lines texts)
  | none =>
    if parts.any fun p => p.text?.isSome then .error .mixedBody
    else return .block (← Stmt.ofForms parts)

def Property.ofForms (key : String) (parts : List Form) : Parsed Property :=
  if key == "params" then return .params (← symbols parts)
  else if key == "retry" || key == "timeout" then wholeNumber key parts
  else if key == "guard" then return .guard (← allTexts .guardEntry parts)
  else if key == "produces" then
    match parts with
    | [value] => .ok (.produces value)
    | _ => .error .producesValue
  else if key == "body" then return .body (← Body.ofForms parts)
  else if key == "return" then
    match parts with
    | [value] => return .ret (← Expr.ofForm value)
    | _ => .error .returnExpression
  else .error (.stepProperty key)

def Property.ofList (known : Entries Property) : List Form → Parsed (Entries Property)
  | [] => .ok known
  | .list (head :: parts) :: fs => do
    let key ← symbol head
    let p ← Property.ofForms key parts
    Property.ofList (Entries.put key p known) fs
  | _ :: _ => .error .stepOption

def Step.ofForms : List Form → Parsed Step
  | [] => .error .stepName
  | name :: options => do
    let n ← symbol name
    let properties ← Property.ofList [("params", .params [])] options
    return ⟨n, properties⟩

def Import.ofForms : List Form → Parsed Import
  | [module] => .ok (.plain module)
  | [module, word, newName] => do
    let w ← symbol word
    if w != "as" then .error .importShape
    else
      let m ← symbol module
      let a ← symbol newName
      return .renamed m a
  | _ => .error .importShape

def Import.ofFromForms : List Form → Parsed Import
  | module :: word :: name :: names => do
    let w ← symbol word
    if w != "import" then .error .fromShape
    else
      let m ← symbol module
      let ns ← symbols (name :: names)
      return .selected m ns
  | _ => .error .fromShape

def Run.ofForms : List Form → Parsed Run
  | [.list (.leaf (.symbol "block") :: body)] => return .block (← Stmt.ofForms body)
  | [f] => return .expr (← Expr.ofForm f)
  | _ => .error .runShape

/-- A program while it is being read: only what it runs may still be missing. -/
structure Draft where
  metadata : Entries Form := []
  imports : List Import := []
  inputs : Entries Form := []
  steps : List Step := []
  run : Option Run := none

def Draft.add (p : Draft) (name : String) (parts : List Form) : Parsed Draft :=
  if name == "meta" then return { p with metadata := ← dataEntries .metaEntry p.metadata parts }
  else if name == "import" then return { p with imports := p.imports ++ [← Import.ofForms parts] }
  else if name == "from" then return { p with imports := p.imports ++ [← Import.ofFromForms parts] }
  else if name == "input" then
    match parts with
    | [key, value] => do
      let k ← symbol key
      return { p with inputs := Entries.put k value p.inputs }
    | _ => .error .inputShape
  else if name == "inputs" then
    return { p with inputs := ← dataEntries .inputsEntry p.inputs parts }
  else if name == "step" then return { p with steps := p.steps ++ [← Step.ofForms parts] }
  else if name == "run" then return { p with run := some (← Run.ofForms parts) }
  else .error (.topLevelForm name)

def Draft.addAll (p : Draft) : List Form → Parsed Draft
  | [] => .ok p
  | .list (.leaf (.symbol name) :: parts) :: fs => do
    let p ← p.add name parts
    p.addAll fs
  | .list (_ :: _) :: _ => .error .topLevelHead
  | _ :: _ => .error .topLevelList

def Tree.ofForms (forms : List Form) : Parsed Tree := do
  let p ← Draft.addAll {} forms
  match p.run with
  | none => .error .missingRun
  | some run => return ⟨p.metadata, p.imports, p.inputs, p.steps, run⟩

inductive ParseError where
  | token (cause : TokenError)
  | balance (cause : Form.BalanceError)
  | form (cause : FormError)
deriving Repr, Inhabited

def ParseError.message : ParseError → String
  | token cause => cause.message
  | balance cause => cause.message
  | form cause => cause.message

def parse (source : String) : Except ParseError Tree := do
  let tokens ← (Sexpr.tokenize source).mapError ParseError.token
  let forms ← (Form.assemble tokens).mapError ParseError.balance
  (Tree.ofForms forms).mapError ParseError.form

end Appwright.Program
