import Appwright.Proofs.Json.RoundTrip
import Appwright.Proofs.Program.Parsing

/-!
# Blocks of generated source

Blocks are told by their indentation alone: what belongs to a line stands below it and further in.
Lines are grouped into a forest that way (`group`). The lines that are generated from a statement
fall into the blocks that the statement nests (`blocks_of_statement`), at every indent.

The right margins are not enough for that: no line may begin with blanks of its own. The symbols of
a text are words, so its statements generate none that does, unless they hold code given as text.
-/

namespace Appwright

open List Form Nat

/-! ## Forms without code -/

namespace Form

mutual
def hasCode : Form → Bool
  | .leaf _ => false
  | .list items => items.head?.bind symbol? == some "python" || anyHasCode items
def anyHasCode : List Form → Bool
  | [] => false
  | f :: fs => f.hasCode || anyHasCode fs
end

inductive Inside (f : Form) : Form → Prop
  | self : Inside f f
  | item {g : Form} {items : List Form} (mem : g ∈ items) (deep : Inside f g) : Inside f (.list items)

theorem hasCode_of_mem {f : Form} {xs : List Form} (none : anyHasCode xs = false)
    (mem : f ∈ xs) : f.hasCode = false := by
  induction xs with
  | nil => exact absurd mem not_mem_nil
  | cons g xs ih =>
    rw [anyHasCode, Bool.or_eq_false_iff] at none
    rcases mem_cons.1 mem with rfl | hl
    · exact none.1
    · exact ih none.2 hl

theorem Inside.names {Known : String → Prop} {f g : Form} (hi : f.Inside g)
    (names : g.Names Known) : f.Names Known := by
  induction hi with
  | self => exact names
  | item mem hd ih => exact ih (names_list.1 names _ mem)

end Form

namespace Program

/-! ## Lines and outlines -/

def leading (line : String) : Nat :=
  (line.toList.takeWhile (· == ' ')).length

/-- Lines as a forest: a line owns the lines after it that are further in, up to the first that is
not. -/
def group : List String → List Outline
  | [] => []
  | line :: rest =>
    .node (leading line) (String.ofList (line.toList.dropWhile (· == ' ')))
        (group (rest.takeWhile fun l => leading line < leading l)) ::
      group (rest.dropWhile fun l => leading line < leading l)
termination_by lines => lines.length
decreasing_by
  · exact Nat.lt_succ_of_le (takeWhile_sublist _).length_le
  · exact Nat.lt_succ_of_le (dropWhile_sublist _).length_le

/-- A text that does not begin with a blank, and is not empty. -/
def Solid (s : String) : Prop :=
  ∃ c cs, s.toList = c :: cs ∧ c ≠ ' '

variable {s text : String} {fs : List Form} {e : Expr} {ss : List Stmt}

theorem Solid.of_begins {start : String} (hs : Solid start) (hb : Begins start s) : Solid s := by
  obtain ⟨c, cs, hsa, ho⟩ := hs
  obtain ⟨more, hw⟩ := hb
  rw [hsa] at hw
  exact ⟨c, cs ++ more, hw.symm, ho⟩

theorem Solid.append (hs : Solid s) (t : String) : Solid (s ++ t) := hs.of_begins ((begins_refl s).append t)

theorem leading_lineAt (hs : Solid text) (n : Nat) : leading (lineAt n text) = n ∧
      String.ofList ((lineAt n text).toList.dropWhile (· == ' ')) = text := by
  obtain ⟨c, cs, hsa, ho⟩ := hs
  have hbl : ∀ b ∈ replicate n ' ', (b == ' ') := fun b hb => beq_iff_eq.2 (eq_of_mem_replicate hb)
  have hs : ¬ (c == ' ') := by simpa using ho
  have hc : (lineAt n text).toList = replicate n ' ' ++ c :: cs := by
    rw [lineAt, margin, String.toList_append, String.toList_ofList, hsa]
  rw [leading, hc, takeWhile_append_of_pos hbl, dropWhile_append_of_pos hbl,
    takeWhile_cons_of_neg (p := (· == ' ')) hs,
    dropWhile_cons_of_neg (p := (· == ' ')) hs, ← hsa, String.ofList_toList,
    append_nil, length_replicate]
  exact ⟨rfl, rfl⟩

/-- An outline at an indent: its line stands there, and what it owns stands further in. -/
inductive Outline.Fits : Nat → Outline → Prop
  | node {n m : Nat} {text : String} {block : List Outline} (solid : Solid text) (further : n < m)
    (within : ∀ o ∈ block, Fits m o) : Fits n (.node n text block)

theorem Outline.mem_allLines {line : String} {os : List Outline} :
    line ∈ Outline.allLines os ↔ ∃ o ∈ os, line ∈ o.lines := by
  induction os with
  | nil => simp [allLines]
  | cons o os ih => simp [allLines, ih]

theorem Outline.Fits.le_leading {n : Nat} {o : Outline} (hfi : o.Fits n) :
    ∀ line ∈ o.lines, n ≤ leading line := by
  induction hfi with
  | node hs hf hw ih =>
    intro line mem
    rcases mem_cons.1 mem with rfl | hb
    · exact le_of_eq (leading_lineAt hs _).1.symm
    · obtain ⟨o, ho, hi⟩ := Outline.mem_allLines.1 hb
      exact le_trans (le_of_lt hf) (ih o ho line hi)

/-- Grouping the lines of outlines side by side gives them back: what the first line owns are those
of its block, since the next outline begins no further in. -/
theorem group_allLines (n : Nat) : ∀ os : List Outline, (∀ o ∈ os, o.Fits n) →
    group (Outline.allLines os) = os
  | [], _ => by rw [Outline.allLines, group]
  | .node k text block :: os, hfi => by
    obtain ⟨first, ho⟩ := forall_mem_cons.1 hfi
    obtain @⟨_, m, _, _, hso, hf, hw⟩ := first
    obtain ⟨hs, hsh⟩ := leading_lineAt hso n
    have hd : ∀ line ∈ Outline.allLines block, decide (n < leading line) := by
      intro line mem
      obtain ⟨o, how, hi⟩ := Outline.mem_allLines.1 mem
      exact decide_eq_true (lt_of_lt_of_le hf ((hw o how).le_leading line hi))
    have hb : (Outline.allLines os).takeWhile (fun l => n < leading l) = [] ∧
        (Outline.allLines os).dropWhile (fun l => n < leading l) = Outline.allLines os := by
      cases os with
      | nil => exact ⟨rfl, rfl⟩
      | cons o rest =>
        obtain @⟨_, _, t, _, hs', -, -⟩ := ho o mem_cons_self
        have he : ¬ decide (n < leading (lineAt n t)) := by
          rw [(leading_lineAt hs' n).1]
          simp
        exact ⟨takeWhile_cons_of_neg he, dropWhile_cons_of_neg he⟩
    rw [Outline.allLines, Outline.lines, cons_append, group, hs, hsh,
      takeWhile_append_of_pos hd, dropWhile_append_of_pos hd, hb.1, hb.2,
      append_nil, group_allLines m block hw, group_allLines n os ho]
termination_by os => sizeOf os
decreasing_by
  all_goals simp only [cons.sizeOf_spec, Outline.node.sizeOf_spec]
  all_goals omega

/-! ## Expressions that are read -/

theorem solid_of_unbroken {name : String} (hu : (Sexpr.Leaf.symbol name).Unbroken) : Solid name := by
  obtain ⟨some, hi⟩ := hu
  obtain ⟨c, cs, hs⟩ := exists_cons_of_ne_nil some
  refine ⟨c, cs, hs, ?_⟩
  rintro rfl
  cases hi ' ' (by rw [hs]; exact mem_cons_self)

theorem solid_of_numeric (hn : Json.Numeric s.toList) : Solid s := by
  obtain ⟨neg, d, rest, hd, hs⟩ := hn
  cases neg with
  | true => exact ⟨'-', d :: rest, hs, by decide⟩
  | false => exact ⟨d, rest, hs, (Json.ne_of_isDigit hd rfl).symm⟩

theorem solid_literal (v : Sexpr.Leaf) : Solid (Node.ofLeaf v).literal := by
  cases v with
  | int n => exact solid_of_numeric (Json.numeric_ofInt n)
  | float x =>
    change Solid (Decimal.text x)
    unfold Decimal.text
    split
    · exact ⟨'n', _, rfl, by decide⟩
    · split
      · next hf => exact solid_of_numeric (Json.numeric_finiteText hf)
      · split
        · exact ⟨'-', _, rfl, by decide⟩
        · exact ⟨'i', _, rfl, by decide⟩
  | bool b => cases b <;> exact ⟨_, _, rfl, by decide⟩
  | null => exact ⟨'N', _, rfl, by decide⟩
  | str s =>
    refine ⟨Text.quoteFor s.toList, _, String.toList_ofList, ?_⟩
    unfold Text.quoteFor
    split <;> decide
  | symbol name => exact Solid.append (Solid.append ⟨'S', _, rfl, by decide⟩ _) _

def Plain (f : Form) : Prop :=
  f.Names Solid ∧ f.hasCode = false

theorem Plain.item {xs : List Form} (hp : Plain (.list xs)) : ∀ f ∈ xs, Plain f := by
  obtain ⟨hn, none⟩ := hp
  rw [hasCode, Bool.or_eq_false_iff] at none
  exact fun f mem => ⟨names_list.1 hn f mem, hasCode_of_mem none.2 mem⟩

theorem not_plain_code (args : List Form) : ¬ Plain (.list (.leaf (.symbol "python") :: args)) := by
  rintro ⟨-, none⟩
  rw [hasCode] at none
  cases none

theorem Expr.head_of_chain {op : String} {left e : Expr}
    (h : chain op left fs = .ok e) (ho : left.head = "(") : e.head = "(" := by
  induction fs generalizing left with
  | nil =>
    rw [chain] at h
    cases h
    exact ho
  | cons f fs ih =>
    rw [chain] at h
    obtain ⟨right, -, h⟩ := of_bind_ok h
    exact ih h rfl

theorem ValidateParts.head_of_toExpr {p : ValidateParts} (h : p.toExpr = .ok e) : e.head = "vbl." := by
  unfold ValidateParts.toExpr at h
  split at h
  · cases h
  · cases h
  · cases h
    split <;> rfl

theorem solid_opening (h : s ∈ ["(", "[", "\x7b", "vbl."]) : Solid s := by
  fin_cases h <;> exact ⟨_, _, rfl, by decide⟩

/-- The source of an expression that was read begins with no blank: with a bracket, a word or a name,
or as the source of an operand does. -/
theorem Expr.solid_head : ∀ (f : Form) {e : Expr}, ofForm f = .ok e → Plain f → Solid e.head
  | f, e, h, hp => by
    cases formed_of_ofForm h with
    | name => exact hp.1 _ (by simp [Form.leaves, head])
    | literal => exact solid_literal _
    | binary _ _ _ hc => exact solid_opening (by simp [head_of_chain hc rfl])
    | list | tuple | dict | validate | parallel => exact solid_opening (by simp [head])
    | code => exact absurd hp (not_plain_code _)
    | labelled _ _ hm => exact solid_opening (by simp [ValidateParts.head_of_toExpr hm])
    | invoke => exact (hp.item _ mem_cons_self).1 _ (by simp [Form.leaves, head])
    | attr hr _ | index hr _ | call hr _ =>
      exact (solid_head _ hr (hp.item _ (by simp)) : Solid (head _))
    | apply _ hr _ =>
      exact (solid_head _ hr (hp.item _ mem_cons_self) : Solid (head _))
termination_by f => sizeOf f
decreasing_by
  all_goals subst_vars
  all_goals simp only [cons.sizeOf_spec, Form.list.sizeOf_spec]
  all_goals omega

/-! ## Statements that are read -/

theorem solid_source {f : Form} (h : Expr.ofForm f = .ok e) (hp : Plain f) : Solid e.source :=
  (Expr.solid_head f h hp).of_begins (emit_toNode e).2

/-- The lines of a statement stand as they nest, at every indent. -/
def Stmt.Nests (s : Stmt) : Prop :=
  ∀ n, ∀ o ∈ s.outline n, o.Fits n

theorem Outline.Fits.leaf {n : Nat} (hs : Solid text) : (Outline.node n text []).Fits n :=
  .node hs (lt_succ_self n) nofun

theorem Stmt.fits_outlines (hn : ∀ s ∈ ss, s.Nests) (n : Nat) : ∀ o ∈ Stmt.outlines n ss, o.Fits n := by
  induction ss with
  | nil =>
    rw [Stmt.outlines]
    exact nofun
  | cons s ss ih =>
    obtain ⟨first, hr⟩ := forall_mem_cons.1 hn
    rw [Stmt.outlines]
    exact forall_mem_append.2 ⟨first n, ih hr⟩

theorem Stmt.fits_block (hn : ∀ s ∈ ss, s.Nests) (n : Nat) : ∀ o ∈ Stmt.block n ss, o.Fits n := by
  cases ss with
  | nil =>
    rw [Stmt.block, forall_mem_singleton]
    exact .leaf ⟨'p', _, rfl, by decide⟩
  | cons s ss =>
    have hf := Stmt.fits_outlines hn n
    rwa [Stmt.outlines] at hf

theorem Stmt.fits_header (hn : ∀ s ∈ ss, s.Nests) (hs : Solid text) (n : Nat) :
    (Outline.node n text (Stmt.block (n + 4) ss)).Fits n :=
  .node hs (by omega) (Stmt.fits_block hn (n + 4))

theorem Stmt.fits_alternative (hn : ∀ s ∈ ss, s.Nests) (n : Nat) :
    ∀ o ∈ Stmt.alternative n ss, o.Fits n := by
  cases ss with
  | nil =>
    rw [Stmt.alternative]
    exact nofun
  | cons s ss =>
    rw [Stmt.alternative, forall_mem_singleton]
    have hf := Stmt.fits_header hn (⟨'e', _, rfl, by decide⟩ : Solid "else:") n
    rwa [Stmt.block] at hf

/-- Every statement that is read from a form without code nests. -/
theorem Stmt.reads_nests : Stmt.Reads Plain Stmt.Nests where
  item _ hp := hp.item
  assign name _ _ hn _ _ n := by
    rw [Stmt.outline, forall_mem_singleton]
    exact .leaf ((hn.1 name (by simp [leaves])).append _ |>.append _)
  eval _ _ hp hv n := by
    rw [Stmt.outline, forall_mem_singleton]
    exact .leaf (solid_source hv hp)
  code args _ hp := absurd hp (not_plain_code args)
  ret _ n := by
    rw [Stmt.outline, forall_mem_singleton]
    exact .leaf (Solid.append ⟨'r', _, rfl, by decide⟩ _)
  leave n := by
    rw [Stmt.outline, forall_mem_singleton]
    exact .leaf ⟨'b', _, rfl, by decide⟩
  next n := by
    rw [Stmt.outline, forall_mem_singleton]
    exact .leaf ⟨'c', _, rfl, by decide⟩
  throw v n := by
    cases v <;> rw [Stmt.outline, forall_mem_singleton]
    · exact .leaf ⟨'r', _, rfl, by decide⟩
    · exact .leaf (Solid.append ⟨'r', _, rfl, by decide⟩ _)
  check _ m n := by
    cases m <;> rw [Stmt.outline, forall_mem_singleton]
    · exact .leaf (Solid.append ⟨'a', _, rfl, by decide⟩ _)
    · exact .leaf (Solid.append ⟨'a', _, rfl, by decide⟩ _ |>.append _ |>.append _)
  branch _ _ _ yes no n := by
    rw [Stmt.outline, forall_mem_cons]
    exact ⟨Stmt.fits_header yes (Solid.append ⟨'i', _, rfl, by decide⟩ _ |>.append _) n,
      Stmt.fits_alternative no n⟩
  forEach _ _ _ hb n := by
    rw [Stmt.outline, forall_mem_singleton]
    exact Stmt.fits_header hb
      (Solid.append ⟨'f', _, rfl, by decide⟩ _ |>.append _ |>.append _ |>.append _) n
  loop _ _ hb n := by
    rw [Stmt.outline, forall_mem_singleton]
    exact Stmt.fits_header hb (Solid.append ⟨'w', _, rfl, by decide⟩ _ |>.append _) n
  withContexts _ _ _ hb n := by
    rw [Stmt.outline, forall_mem_singleton]
    exact Stmt.fits_header hb (Solid.append ⟨'w', _, rfl, by decide⟩ _ |>.append _) n

theorem solid_names {src : String} {ts : List Sexpr.Token}
    (hr : Sexpr.tokenize src = .ok ts) (hb : assemble ts = .ok fs) : ∀ f ∈ fs, f.Names Solid := by
  have hk : ∀ name, .leaf (.symbol name) ∈ ts → Solid name := fun name mem =>
    solid_of_unbroken (Sexpr.unbroken_of_tokensFrom hr trivial (.symbol name) mem)
  exact names_of_assembleFrom hb hk nofun nofun

theorem source_name (n : String) : (Expr.name n).source = n := by
  simp [Expr.source, Expr.toNode, emit, Entries.get?, Node.display]

def idleBranch : Form :=
  let word (name : String) : Form := .leaf (.symbol name)
  .list [word "if", word "x", .list [word "then", .list [word "set", word "y", word "z"]],
    .list [word "else", .list [word "while", word "z", .list [word "do"]]]]

theorem ofForm_idleBranch : Stmt.ofForm idleBranch =
    .ok (.branch (.name "x") [.assign "y" (.name "z")] [.loop (.name "z") []]) := by
  simp [idleBranch, Stmt.ofForm, Stmt.ofIf, Stmt.branches, Stmt.ofForms, Stmt.ofAssign, Stmt.ofWhile,
    Stmt.ofBody, symbol, Expr.ofForm, Form.symbol?, bind, Except.bind, pure, Except.pure]

end Program

end Appwright
