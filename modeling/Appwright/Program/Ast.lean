import Appwright.Program.Node

/-!
# Programs

A program has metadata, imports, named inputs, steps and an expression or block to run. This module
holds its syntax tree and the document that represents each part of it.
-/

namespace Appwright.Program

open Sexpr (Leaf)

inductive Expr where
  | name (name : String)
  | literal (value : Leaf)
  | binary (op : String) (left right : Expr)
  | attr (base : Expr) (attr : String)
  | index (base index : Expr)
  | list (items : List Expr)
  | tuple (items : List Expr)
  | dict (entries : List (Expr × Expr))
  | code (source : String)
  | validateSchema (schema data : Expr)
  | validateModel (model data : Expr)
  | parallel (tasks : List (String × Expr))
  | invoke (func : String) (args : List Expr) (named : List (String × Expr))
  | apply (func : Expr) (args : List Expr) (named : List (String × Expr))
deriving Repr, Inhabited

structure Context where
  value : Expr
  name : Option String
deriving Repr, Inhabited

inductive Stmt where
  | assign (name : String) (value : Expr)
  | eval (value : Expr)
  | ret (value : Expr)
  | code (lines : List String)
  | branch (cond : Expr) (thenBody elseBody : List Stmt)
  | forEach (var : String) (iter : Expr) (body : List Stmt)
  | loop (cond : Expr) (body : List Stmt)
  | leave
  | next
  | throw (value : Option Expr)
  | check (cond : Expr) (message : Option Expr)
  | withContexts (contexts : List Context) (body : List Stmt)
deriving Repr, Inhabited

inductive Body where
  | lines (lines : List String)
  | block (body : List Stmt)
deriving Repr, Inhabited

inductive Property where
  | params (names : List String)
  | number (value : Leaf)
  | guard (tokens : List String)
  | produces (value : Form)
  | body (body : Body)
  | ret (value : Expr)
deriving Repr, Inhabited

structure Step where
  name : String
  properties : List (String × Property)
deriving Repr, Inhabited

inductive Import where
  | plain (module : Form)
  | renamed (module label : String)
  | selected (module : String) (names : List String)
deriving Repr, Inhabited

inductive Run where
  | expr (value : Expr)
  | block (body : List Stmt)
deriving Repr, Inhabited

structure Tree where
  metadata : Entries Form
  imports : List Import
  inputs : Entries Form
  steps : List Step
  run : Run
deriving Repr, Inhabited

/-! ## Documents -/

def Node.ofTexts (texts : List String) : Node :=
  .list (texts.map .str)

mutual
def Expr.toNode : Expr → Node
  | .name n => .obj [("name", .str n)]
  | .literal v => .obj [("literal", .ofLeaf v)]
  | .binary op l r =>
    .obj [("binop", .obj [("op", .str op), ("left", l.toNode), ("right", r.toNode)])]
  | .attr b a => .obj [("attr", .obj [("base", b.toNode), ("attr", .str a)])]
  | .index b i => .obj [("index", .obj [("base", b.toNode), ("index", i.toNode)])]
  | .list xs => .obj [("list", .list (Expr.toNodes xs))]
  | .tuple xs => .obj [("tuple", .list (Expr.toNodes xs))]
  | .dict es => .obj [("dict", .list (Expr.entryNodes es))]
  | .code s => .obj [("python", .str s)]
  | .validateSchema s d => .obj [("validate", .obj [("schema", s.toNode), ("data", d.toNode)])]
  | .validateModel m d => .obj [("validate", .obj [("model", m.toNode), ("data", d.toNode)])]
  | .parallel ts => .obj [("parallel", .list (Expr.taskNodes ts))]
  | .invoke f args named =>
    .obj [("call", .str f), ("args", .list (Expr.toNodes args)),
      ("kwargs", .obj (Expr.namedNodes named))]
  | .apply f args named =>
    .obj [("call", f.toNode), ("args", .list (Expr.toNodes args)),
      ("kwargs", .obj (Expr.namedNodes named))]
def Expr.toNodes : List Expr → List Node
  | [] => []
  | e :: es => e.toNode :: Expr.toNodes es
def Expr.entryNodes : List (Expr × Expr) → List Node
  | [] => []
  | (k, v) :: es => .obj [("key", k.toNode), ("value", v.toNode)] :: Expr.entryNodes es
def Expr.taskNodes : List (String × Expr) → List Node
  | [] => []
  | (n, e) :: es => .obj [("name", .str n), ("call", e.toNode)] :: Expr.taskNodes es
def Expr.namedNodes : List (String × Expr) → List (String × Node)
  | [] => []
  | (n, e) :: es => (n, e.toNode) :: Expr.namedNodes es
end

def Context.toNode (c : Context) : Node :=
  match c.name with
  | none => .obj [("context", c.value.toNode)]
  | some n => .obj [("context", c.value.toNode), ("as", .str n)]

mutual
def Stmt.toNode : Stmt → Node
  | .assign n v => .obj [("set", .obj [("name", .str n), ("value", v.toNode)])]
  | .eval v => .obj [("expr", v.toNode)]
  | .ret v => .obj [("return", v.toNode)]
  | .code lines => .obj [("python", .ofTexts lines)]
  | .branch c t e =>
    .obj [("if", .obj [("cond", c.toNode), ("then", .list (Stmt.toNodes t)),
      ("else", .list (Stmt.toNodes e))])]
  | .forEach v i b =>
    .obj [("for", .obj [("var", .str v), ("iter", i.toNode), ("body", .list (Stmt.toNodes b))])]
  | .loop c b => .obj [("while", .obj [("cond", c.toNode), ("body", .list (Stmt.toNodes b))])]
  | .leave => .obj [("break", .bool true)]
  | .next => .obj [("continue", .bool true)]
  | .throw none => .obj [("raise", .null)]
  | .throw (some v) => .obj [("raise", v.toNode)]
  | .check c none => .obj [("assert", .obj [("cond", c.toNode)])]
  | .check c (some m) => .obj [("assert", .obj [("cond", c.toNode), ("msg", m.toNode)])]
  | .withContexts cs b =>
    .obj [("with", .obj [("items", .list (cs.map Context.toNode)),
      ("body", .list (Stmt.toNodes b))])]
def Stmt.toNodes : List Stmt → List Node
  | [] => []
  | s :: ss => s.toNode :: Stmt.toNodes ss
end

/-- A form kept as data: a symbol standing alone becomes its name. -/
def Node.ofDatum : Form → Node
  | .leaf (.symbol name) => .str name
  | f => .ofForm f

def Property.toNode : Property → Node
  | .params names => .ofTexts names
  | .number v => .ofLeaf v
  | .guard tokens => .ofTexts tokens
  | .produces v => .ofDatum v
  | .body (.lines lines) => .ofTexts lines
  | .body (.block b) => .obj [("block", .list (Stmt.toNodes b))]
  | .ret v => v.toNode

def Step.toNode (s : Step) : Node :=
  .obj (("name", .str s.name) :: s.properties.map fun (k, p) => (k, p.toNode))

def Import.toNode : Import → Node
  | .plain m => .ofDatum m
  | .renamed m a => .obj [("import", .str m), ("as", .str a)]
  | .selected m ns => .obj [("from", .str m), ("import", .ofTexts ns)]

def Run.toNode : Run → Node
  | .expr v => v.toNode
  | .block b => .obj [("block", .list (Stmt.toNodes b))]

def Tree.toMembers (p : Tree) : Entries Node :=
  [("meta", .obj (p.metadata.map fun (k, v) => (k, .ofDatum v))),
   ("imports", .list (p.imports.map Import.toNode)),
   ("inputs", .obj (p.inputs.map fun (k, v) => (k, .ofDatum v))),
   ("steps", .list (p.steps.map Step.toNode)),
   ("run", p.run.toNode)]

def Tree.toNode (p : Tree) : Node :=
  .obj p.toMembers

end Appwright.Program
