import Appwright.Program.Source
import Mathlib.Data.List.Basic
import Mathlib.Tactic.FinCases

/-!
# Documents of syntax trees

The document of every expression and of every statement that the parser can make passes the check,
and source is generated from it: for a statement, the lines of its `outline`, which nests as the
statement does. The check and the generator look for the kinds of nodes one after another; a
document that stands for a syntax tree has the members of one kind only, so both find the kind that
was meant.
-/

namespace Appwright.Program

open Stmt List

/-! ## Expressions -/

attribute [local simp] bind Except.bind pure Except.pure Entries.get? Node.child? Node.member
  Node.display Node.bodyOf Node.members? memberOrNull Expr.toNode emit emitRest checkBlock require
  checkMember checkKind Node.isList Node.isText Node.holds Entries.has

mutual
theorem checkExpr_toNode : ∀ e : Expr, checkExpr e.toNode = .ok ()
  | .dict es => by
    simp [checkExpr, checkDict, checkEntries_entryNodes es]
  | .name _ | .literal _ | .code _ | .binary _ _ _ | .attr _ _ | .index _ _ | .list _ | .tuple _
  | .validateSchema _ _ | .validateModel _ _ | .parallel _ | .invoke _ _ _ | .apply _ _ _ => by
    simp [checkExpr]
theorem checkEntries_entryNodes : ∀ es : List (Expr × Expr), checkEntries (Expr.entryNodes es) = .ok ()
  | [] => by rw [Expr.entryNodes, checkEntries]
  | (k, v) :: es => by
    simp [Expr.entryNodes, checkEntries, checkExpr_toNode k, checkExpr_toNode v, checkEntries_entryNodes es]
end

attribute [local simp] checkExpr_toNode

variable (e : Expr) (indent : Nat)

theorem exists_toNode_eq_obj : ∃ m ms, e.toNode = .obj (m :: ms) := by
  cases e <;> exact ⟨_, _, rfl⟩

theorem joinTexts_map_str (pos : Nat) (ts : List String) : joinTexts pos (ts.map .str) = .ok ts := by
  induction ts generalizing pos with
  | nil => rfl
  | cons s ts ih =>
    rw [map_cons, joinTexts, ih]
    rfl

theorem commaJoin_map_str (ts : List String) :
    commaJoin (ts.map .str) = .ok (String.intercalate ", " ts) := by
  rw [commaJoin, joinTexts_map_str]
  rfl

theorem emit_call {func : Node} {args : List Node} {named : Entries Node} {f : String}
    {ts : List String} {ps : List (String × String)} (hc : emit func = .ok (.str f))
    (hp : emitItems args = .ok (ts.map .str)) (hm : emitMembers named = .ok ps) :
    emit (.obj [("call", func), ("args", .list args), ("kwargs", .obj named)]) = .ok (.str (f ++ "(" ++
        String.intercalate ", " (ts ++ ps.map fun e => e.1 ++ "=" ++ e.2) ++ ")")) := by
  have hj : commaJoin (ts.map .str ++ ps.map fun e => .str (e.1 ++ "=" ++ e.2)) =
      .ok (String.intercalate ", " (ts ++ ps.map fun e => e.1 ++ "=" ++ e.2)) := by
    have hs := commaJoin_map_str (ts ++ ps.map fun e => e.1 ++ "=" ++ e.2)
    rwa [map_append, map_map] at hs
  simp [emitSequence, emitNamed, hc, hp, hm, hj]

def Begins (start s : String) : Prop :=
  start.toList <+: s.toList

theorem begins_refl (s : String) : Begins s s := prefix_refl s.toList

theorem Begins.append {start s : String} (h : Begins start s) (t : String) : Begins start (s ++ t) := by
  rw [Begins, String.toList_append]
  exact IsPrefix.trans h (prefix_append _ _)

def Expr.head : Expr → String
  | .name n => n
  | .literal v => (Node.ofLeaf v).literal
  | .attr b _ | .index b _ => b.head
  | .invoke f _ _ => f
  | .apply f _ _ => f.head
  | .code s => s
  | .binary _ _ _ | .tuple _ => "("
  | .list _ => "["
  | .dict _ => "\x7b"
  | .validateSchema _ _ | .validateModel _ _ | .parallel _ => "vbl."

attribute [local simp] Expr.head

mutual
theorem exists_emit_head : ∀ e : Expr, ∃ s, emit e.toNode = .ok (.str s) ∧ Begins e.head s
  | .name _ | .literal _ | .code _ => by simp [begins_refl]
  | .binary op l r => by
    obtain ⟨a, left, -⟩ := exists_emit_head l
    obtain ⟨b, right, -⟩ := exists_emit_head r
    simp [left, right, Begins]
  | .attr b a => by
    obtain ⟨s, hba, hb⟩ := exists_emit_head b
    have hpr : b.toNode.truthy := by
      obtain ⟨m, ms, ho⟩ := exists_toNode_eq_obj b
      rw [ho]
      rfl
    simp [emitAttr, hpr, hba]
    exact (hb.append _).append _
  | .index b i => by
    obtain ⟨s, hba, hb⟩ := exists_emit_head b
    obtain ⟨t, hi, -⟩ := exists_emit_head i
    simp [hba, hi]
    exact ((hb.append _).append _).append _
  | .list xs | .tuple xs => by
    obtain ⟨ts, hp⟩ := exists_emitItems_toNodes xs
    simp [emitSequence, hp, commaJoin_map_str, Begins]
  | .dict es => by
    obtain ⟨ts, hp⟩ := exists_emitEntries_entryNodes es
    simp [emitDict, braced, hp, Begins]
  | .validateSchema s d | .validateModel s d => by
    obtain ⟨a, hs, -⟩ := exists_emit_head s
    obtain ⟨b, hd, -⟩ := exists_emit_head d
    simp [emitValidate, hs, hd, Begins]
  | .parallel tasks => by
    obtain ⟨ts, hp⟩ := exists_emitTaskItems_taskNodes tasks
    simp [emitTasks, hp, commaJoin_map_str, Begins]
  | .invoke f args named => by
    obtain ⟨ts, hp⟩ := exists_emitItems_toNodes args
    obtain ⟨ps, hm⟩ := exists_emitMembers_namedNodes named
    have hc : emit (.str f) = .ok (.str f) := by rw [emit]
    exact ⟨_, emit_call hc hp hm, (begins_refl f).append _ |>.append _ |>.append _⟩
  | .apply f args named => by
    obtain ⟨s, hc, hb⟩ := exists_emit_head f
    obtain ⟨ts, hp⟩ := exists_emitItems_toNodes args
    obtain ⟨ps, hm⟩ := exists_emitMembers_namedNodes named
    exact ⟨_, emit_call hc hp hm, hb.append _ |>.append _ |>.append _⟩
theorem exists_emitItems_toNodes : ∀ es : List Expr,
    ∃ ts : List String, emitItems (Expr.toNodes es) = .ok (ts.map .str)
  | [] => ⟨[], by rw [Expr.toNodes, emitItems]; rfl⟩
  | e :: es => by
    obtain ⟨s, first, -⟩ := exists_emit_head e
    obtain ⟨ts, hr⟩ := exists_emitItems_toNodes es
    refine ⟨s :: ts, ?_⟩
    simp [Expr.toNodes, emitItems, first, hr]
theorem exists_emitEntries_entryNodes : ∀ es : List (Expr × Expr),
    ∃ ts, emitEntries (Expr.entryNodes es) = .ok ts
  | [] => ⟨[], by rw [Expr.entryNodes, emitEntries]⟩
  | (k, v) :: es => by
    obtain ⟨a, key, -⟩ := exists_emit_head k
    obtain ⟨b, hv, -⟩ := exists_emit_head v
    obtain ⟨ts, hr⟩ := exists_emitEntries_entryNodes es
    simp [Expr.entryNodes, emitEntries, key, hv, hr]
theorem exists_emitTaskItems_taskNodes : ∀ ts : List (String × Expr),
    ∃ texts : List String, emitTaskItems (Expr.taskNodes ts) = .ok (texts.map .str)
  | [] => ⟨[], by rw [Expr.taskNodes, emitTaskItems]; rfl⟩
  | (n, e) :: ts => by
    obtain ⟨s, hc, -⟩ := exists_emit_head e
    obtain ⟨texts, hr⟩ := exists_emitTaskItems_taskNodes ts
    refine ⟨((Node.str n).literal ++ ": (lambda: " ++ s ++ ")") :: texts, ?_⟩
    simp [Expr.taskNodes, emitTaskItems, hc, hr]
theorem exists_emitMembers_namedNodes : ∀ es : List (String × Expr),
    ∃ ps, emitMembers (Expr.namedNodes es) = .ok ps
  | [] => ⟨[], by rw [Expr.namedNodes, emitMembers]⟩
  | (n, e) :: es => by
    obtain ⟨s, hv, -⟩ := exists_emit_head e
    obtain ⟨ps, hr⟩ := exists_emitMembers_namedNodes es
    simp [Expr.namedNodes, emitMembers, hv, hr]
end

def Expr.source (e : Expr) : String :=
  match emit e.toNode with
  | .ok v => v.display
  | .error _ => ""

theorem emit_toNode : emit e.toNode = .ok (.str e.source) ∧ Begins e.head e.source := by
  obtain ⟨s, hm, hb⟩ := exists_emit_head e
  rw [Expr.source, hm]
  exact ⟨rfl, hb⟩

theorem exists_emit_toNode : ∃ s, emit e.toNode = .ok (.str s) := ⟨_, (emit_toNode e).1⟩

/-! ## Statements -/

theorem checkContexts_toNode (cs : List Context) : checkContexts (cs.map Context.toNode) = .ok () := by
  induction cs with
  | nil => rfl
  | cons c cs ih =>
    obtain ⟨v, name⟩ := c
    cases name <;> simp [Context.toNode, checkContexts, ih]

def Context.source (c : Context) : String :=
  match c.name with
  | none => c.value.source
  | some n => if n.isEmpty then c.value.source else c.value.source ++ " as " ++ n

theorem emitContexts_toNode (cs : List Context) :
    emitContexts (cs.map Context.toNode) = .ok ((cs.map Context.source).map .str) := by
  induction cs with
  | nil => rfl
  | cons c cs ih =>
    obtain ⟨v, name⟩ := c
    have hv := (emit_toNode v).1
    cases name with
    | none =>
      simp [Context.toNode, Context.source, emitContexts, Node.truthy, hv, ih]
    | some n =>
      by_cases he : n.isEmpty <;>
        simp [Context.toNode, Context.source, emitContexts, Node.truthy, hv, ih, he]

theorem marginLines_map_str (ts : List String) :
    marginLines indent (ts.map .str) = .ok (ts.map (lineAt indent)) := by
  induction ts with
  | nil => rfl
  | cons s ts ih =>
    rw [map_cons, marginLines, ih]
    rfl

def codeTexts (lines : List String) : List String :=
  if lines.isEmpty then ["pass"] else lines

theorem marginLines_codeLines (ls : List String) :
    marginLines indent (codeLines (.ofTexts ls)) = .ok ((codeTexts ls).map (lineAt indent)) := by
  cases ls with
  | nil => exact marginLines_map_str indent ["pass"]
  | cons s ls => exact marginLines_map_str indent (s :: ls)

mutual
def Stmt.HasContexts : Stmt → Prop
  | .branch _ t e => AllHaveContexts t ∧ AllHaveContexts e
  | .forEach _ _ b => AllHaveContexts b
  | .loop _ b => AllHaveContexts b
  | .withContexts cs b => cs ≠ [] ∧ AllHaveContexts b
  | _ => True
def Stmt.AllHaveContexts : List Stmt → Prop
  | [] => True
  | s :: ss => HasContexts s ∧ AllHaveContexts ss
end

theorem sizeOf_lt_singleton (kind : String) (v : Node) : sizeOf v < sizeOf [(kind, v)] := by
  simp only [cons.sizeOf_spec, Prod.mk.sizeOf_spec]
  omega

theorem firstChild?_singleton {kind : String} (h : kind ∈ stmtKinds) (v : Node) :
    Node.firstChild? stmtKinds [(kind, v)] = some (kind, ⟨v, sizeOf_lt_singleton kind v⟩) := by
  fin_cases h <;> rfl

mutual
theorem checkStmt_toNode : ∀ s : Stmt, s.HasContexts → checkStmt s.toNode = .ok ()
  | .assign n v, _ => by
    rw [toNode, checkStmt, firstChild?_singleton (by decide)]
    simp [checkAssign]
  | .eval v, _ | .ret v, _ => by
    rw [toNode, checkStmt, firstChild?_singleton (by decide)]
    simp
  | .code _, _ | .leave, _ | .next, _ | .throw none, _ => by
    rw [toNode, checkStmt, firstChild?_singleton (by decide)]
    rfl
  | .throw (some v), _ => by
    obtain ⟨m, ms, ho⟩ := exists_toNode_eq_obj v
    have hp := checkExpr_toNode v
    rw [ho] at hp
    rw [toNode, ho, checkStmt, firstChild?_singleton (by decide)]
    simp [hp]
  | .check _ none, _ | .check _ (some _), _ => by
    rw [toNode, checkStmt, firstChild?_singleton (by decide)]
    simp [checkAssert]
  | .branch c t e, h => by
    rw [toNode, checkStmt, firstChild?_singleton (by decide)]
    simp [checkBranches, checkStmts_toNodes t h.1, checkStmts_toNodes e h.2]
  | .forEach n i b, h => by
    rw [toNode, checkStmt, firstChild?_singleton (by decide)]
    simp [checkFor, checkStmts_toNodes b h]
  | .loop c b, h => by
    rw [toNode, checkStmt, firstChild?_singleton (by decide)]
    simp [checkBranches, checkStmts_toNodes b h]
  | .withContexts [] b, h => absurd rfl h.1
  | .withContexts (c :: cs) b, h => by
    have hc := checkContexts_toNode (c :: cs)
    rw [map_cons] at hc
    rw [toNode, checkStmt, firstChild?_singleton (by decide)]
    simp [checkWith, hc, checkStmts_toNodes b h.2]
theorem checkStmts_toNodes : ∀ ss : List Stmt, AllHaveContexts ss → checkStmts (toNodes ss) = .ok ()
  | [], _ => by rw [toNodes, checkStmts]
  | s :: ss, h => by
    rw [toNodes, checkStmts, checkStmt_toNode s h.1]
    exact checkStmts_toNodes ss h.2
end

/-! ## Blocks -/

inductive Outline where
  | node (indent : Nat) (text : String) (block : List Outline)

mutual
def Outline.lines : Outline → List String
  | .node n text block => lineAt n text :: Outline.allLines block
def Outline.allLines : List Outline → List String
  | [] => []
  | o :: os => o.lines ++ Outline.allLines os
end

theorem Outline.allLines_append (os ps : List Outline) :
    Outline.allLines (os ++ ps) = Outline.allLines os ++ Outline.allLines ps := by
  induction os with
  | nil => rfl
  | cons o os ih => rw [cons_append, allLines, allLines, ih, append_assoc]

theorem Outline.allLines_leaves (n : Nat) (ts : List String) :
    Outline.allLines (ts.map fun text => .node n text []) = ts.map (lineAt n) := by
  induction ts with
  | nil => rfl
  | cons t ts ih => rw [map_cons, allLines, ih]; rfl

mutual
/-- The nesting of a statement: a simple one is a line, others have blocks four blanks further in. -/
def Stmt.outline (n : Nat) : Stmt → List Outline
  | .branch c t e =>
    .node n ("if " ++ c.source ++ ":") (block (n + 4) t) :: alternative n e
  | .forEach v i b =>
    [.node n ("for " ++ v ++ " in " ++ i.source ++ ":") (block (n + 4) b)]
  | .loop c b => [.node n ("while " ++ c.source ++ ":") (block (n + 4) b)]
  | .withContexts cs b =>
    [.node n ("with " ++ String.intercalate ", " (cs.map Context.source) ++ ":")
      (block (n + 4) b)]
  | .assign name v => [.node n (name ++ " = " ++ v.source) []]
  | .eval v => [.node n v.source []]
  | .ret v => [.node n ("return " ++ v.source) []]
  | .code lines => (codeTexts lines).map fun text => .node n text []
  | .leave => [.node n "break" []]
  | .next => [.node n "continue" []]
  | .throw none => [.node n "raise" []]
  | .throw (some v) => [.node n ("raise " ++ v.source) []]
  | .check c none => [.node n ("assert " ++ c.source) []]
  | .check c (some m) => [.node n ("assert " ++ c.source ++ ", " ++ m.source) []]
def Stmt.outlines (n : Nat) : List Stmt → List Outline
  | [] => []
  | s :: ss => s.outline n ++ outlines n ss
def Stmt.block (n : Nat) : List Stmt → List Outline
  | [] => [.node n "pass" []]
  | s :: ss => s.outline n ++ outlines n ss
def Stmt.alternative (n : Nat) : List Stmt → List Outline
  | [] => []
  | s :: ss => [.node n "else:" (s.outline (n + 4) ++ outlines (n + 4) ss)]
end

attribute [local simp] Outline.allLines Outline.lines Outline.allLines_append Stmt.toNodes
  outline

mutual
/-- The lines that are generated from the document of a statement are those of its nesting. -/
theorem emitStmt_toNode : ∀ (s : Stmt) (n : Nat), emitStmt n s.toNode = .ok (Outline.allLines (s.outline n))
  | .assign _ v, n | .eval v, n | .ret v, n | .check v none, n => by
    rw [toNode, emitStmt, firstChild?_singleton (by decide)]
    simp [emit_toNode v]
  | .code ls, n => by
    rw [toNode, emitStmt, firstChild?_singleton (by decide), outline, Outline.allLines_leaves]
    exact marginLines_codeLines n ls
  | .leave, n | .next, n | .throw none, n => by
    rw [toNode, emitStmt, firstChild?_singleton (by decide)]
    rfl
  | .throw (some v), n => by
    obtain ⟨m, ms, ho⟩ := exists_toNode_eq_obj v
    have hv := (emit_toNode v).1
    rw [ho] at hv
    rw [toNode, ho, emitStmt, firstChild?_singleton (by decide)]
    simp [hv]
  | .check c (some m), n => by
    rw [toNode, emitStmt, firstChild?_singleton (by decide)]
    simp [emit_toNode c, emit_toNode m]
  | .branch c t e, n => by
    rw [toNode, emitStmt, firstChild?_singleton (by decide)]
    simp [emit_toNode c, emitBlock_toNodes t (n + 4), emitElse_toNodes e n]
  | .forEach _ v b, n | .loop v b, n => by
    rw [toNode, emitStmt, firstChild?_singleton (by decide)]
    simp [emitElse, emit_toNode v, emitBlock_toNodes b (n + 4)]
  | .withContexts cs b, n => by
    rw [toNode, emitStmt, firstChild?_singleton (by decide)]
    simp [emitContexts_toNode, commaJoin_map_str, emitBlock_toNodes b (n + 4), -map_map]
theorem emitStmts_toNodes : ∀ (ss : List Stmt) (n : Nat),
    emitStmts n (toNodes ss) = .ok (Outline.allLines (outlines n ss))
  | [], _ => by rw [toNodes, emitStmts]; rfl
  | s :: ss, n => by
    simp [outlines, emitStmts, emitStmt_toNode s n, emitStmts_toNodes ss n]
theorem emitBlock_toNodes : ∀ (ss : List Stmt) (n : Nat),
    emitBlock n (toNodes ss) = .ok (Outline.allLines (block n ss))
  | [], n => by simp [block, emitBlock]
  | s :: ss, n => by
    simp [block, emitBlock, emitStmts, emitStmt_toNode s n, emitStmts_toNodes ss n]
theorem emitElse_toNodes : ∀ (ss : List Stmt) (n : Nat),
    emitElse n (toNodes ss) = .ok (Outline.allLines (alternative n ss))
  | [], n => by simp [alternative, emitElse]
  | s :: ss, n => by
    simp [alternative, emitElse, emitStmts, emitStmt_toNode s (n + 4), emitStmts_toNodes ss (n + 4)]
end

theorem exists_marginLines_codeLines (ls : List String) :
    ∃ out, marginLines indent (codeLines (.ofTexts ls)) = .ok out :=
  ⟨_, marginLines_codeLines indent ls⟩

theorem exists_emitBlock_toNodes (ss : List Stmt) (indent : Nat) :
    ∃ ls, emitBlock indent (toNodes ss) = .ok ls :=
  ⟨_, emitBlock_toNodes ss indent⟩

end Appwright.Program
