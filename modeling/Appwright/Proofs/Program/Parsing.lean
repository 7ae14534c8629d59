import Appwright.Proofs.Entries
import Appwright.Proofs.Program.Document
import Appwright.Proofs.Run
import Appwright.Proofs.Sexpr.Printing
import Mathlib.Tactic.SplitIfs

/-!
# Programs that can be read

What every program has that was read from text. The names in it are names of symbols, and no symbol
of a text holds a character that ends a word. Each property of a step is of the kind that its key
asks for, and each `with` statement has a context.
-/

namespace Appwright

open List Entries

/-! ## Symbols of a text -/

namespace Sexpr

/-- A leaf whose name, if it is a symbol, is not empty and holds no character that ends a word. -/
def Leaf.Unbroken : Leaf → Prop
  | .symbol name => name.toList ≠ [] ∧ ∀ c ∈ name.toList, endsWord c = false
  | _ => True

def Mode.Unbroken : Mode → Prop
  | .word read => read ≠ [] ∧ ∀ c ∈ read, endsWord c = false
  | _ => True

theorem unbroken_of_classify {word : List Char} {v : Leaf} (h : classify word = .ok v)
    (some : word ≠ []) (hi : ∀ c ∈ word, endsWord c = false) : v.Unbroken := by
  unfold classify at h
  split at h
  · split at h <;> cases h
    trivial
  · cases h
    trivial
  · split_ifs at h <;> cases h
    iterate 3 trivial
    rw [Leaf.Unbroken, String.toList_ofList]
    exact ⟨some, hi⟩

theorem not_leaf_mem_stepBetween (c : Char) (v : Leaf) : .leaf v ∉ (stepBetween c).1 := by
  unfold stepBetween
  repeat' split
  all_goals simp

theorem unbroken_stepBetween (c : Char) : (stepBetween c).2.Unbroken := by
  unfold stepBetween
  split_ifs
  iterate 5 trivial
  refine ⟨cons_ne_nil c [], fun d hd => ?_⟩
  rw [mem_singleton.1 hd, endsWord]
  simp_all

variable {tokens : List Token} {mode : Mode}

theorem unbroken_of_step {next : Mode} {c : Char} (h : step mode c = .ok (tokens, next))
    (hu : mode.Unbroken) : next.Unbroken ∧ ∀ v, .leaf v ∈ tokens → v.Unbroken := by
  cases mode with
  | between =>
    have hsa : stepBetween c = (tokens, next) := Except.ok.inj h
    have ha := unbroken_stepBetween c
    have hs := not_leaf_mem_stepBetween c
    rw [hsa] at ha hs
    exact ⟨ha, fun v hv => absurd hv (hs v)⟩
  | comment =>
    cases h
    refine ⟨?_, nofun⟩
    split <;> trivial
  | word read =>
    rw [step] at h
    split at h
    · split at h
      · cases h
      · next leaf hk =>
        cases h
        refine ⟨unbroken_stepBetween c, fun v hv => ?_⟩
        rcases mem_cons.1 hv with hsa | hl
        · cases hsa
          exact unbroken_of_classify hk (reverse_ne_nil_iff.2 hu.1) fun d hd => hu.2 d (mem_reverse.1 hd)
        · exact absurd hl (not_leaf_mem_stepBetween c v)
    · next hi =>
      cases h
      refine ⟨⟨cons_ne_nil _ _, fun d hd => ?_⟩, nofun⟩
      rcases mem_cons.1 hd with rfl | he
      · exact Bool.eq_false_iff.2 hi
      · exact hu.2 d he
  | text read =>
    rw [step] at h
    split at h
    · cases h
      exact ⟨trivial, nofun⟩
    · split at h
      · cases h
        refine ⟨trivial, fun v hv => ?_⟩
        cases mem_singleton.1 hv
        trivial
      · cases h
        exact ⟨trivial, nofun⟩
  | escape read =>
    cases h
    exact ⟨trivial, nofun⟩

theorem unbroken_of_finish (h : finish mode = .ok tokens) (hu : mode.Unbroken) :
    ∀ v, .leaf v ∈ tokens → v.Unbroken := by
  intro v hv
  cases mode with
  | between | comment =>
    cases h
    exact absurd hv not_mem_nil
  | word read =>
    rw [finish] at h
    obtain ⟨leaf, hk, ⟨⟩⟩ := except_map_eq_ok h
    cases mem_singleton.1 hv
    exact unbroken_of_classify hk (reverse_ne_nil_iff.2 hu.1) fun d hd => hu.2 d (mem_reverse.1 hd)
  | text read | escape read => cases h

theorem unbroken_of_tokensFrom {cs : List Char} (h : tokensFrom mode cs = .ok tokens)
    (hu : mode.Unbroken) : ∀ v, .leaf v ∈ tokens → v.Unbroken := by
  induction cs generalizing mode tokens with
  | nil => exact unbroken_of_finish h hu
  | cons c cs ih =>
    rw [tokensFrom] at h
    split at h
    · cases h
    · next here next hs =>
      split at h
      · cases h
      · next rest hm =>
        cases h
        obtain ⟨ha, hl⟩ := unbroken_of_step hs hu
        intro v hv
        rcases mem_append.1 hv with first | hla
        · exact hl v first
        · exact ih hm ha v hla

end Sexpr

/-! ## Leaves of forms -/

namespace Form

open Sexpr

def Names (Known : String → Prop) (f : Form) : Prop :=
  ∀ name, Leaf.symbol name ∈ f.leaves → Known name

variable {Known : String → Prop}

theorem mem_leavesOfAll {v : Leaf} {fs : List Form} : v ∈ leavesOfAll fs ↔ ∃ f ∈ fs, v ∈ leaves f := by
  induction fs with
  | nil => simp [leavesOfAll]
  | cons f fs ih => simp [leavesOfAll, ih]

theorem names_list {xs : List Form} : (Form.list xs).Names Known ↔ ∀ f ∈ xs, f.Names Known := by
  unfold Names
  simp only [leaves, mem_leavesOfAll]
  constructor
  · intro h f hf name hv
    exact h name ⟨f, hf, hv⟩
  · rintro h name ⟨f, hf, hv⟩
    exact h f hf name hv

theorem names_of_assembleFrom {tokens : List Token} {cur forms : List Form}
    {out : List (List Form)} (h : assembleFrom cur out tokens = .ok forms)
    (hk : ∀ name, .leaf (.symbol name) ∈ tokens → Known name)
    (hi : ∀ f ∈ cur, f.Names Known) (ha : ∀ fs ∈ out, ∀ f ∈ fs, f.Names Known) :
    ∀ f ∈ forms, f.Names Known := by
  induction tokens generalizing cur out with
  | nil =>
    rw [assembleFrom] at h
    split at h
    · cases h
      intro f hf
      exact hi f (mem_reverse.1 hf)
    · cases h
  | cons tok tokens ih =>
    have hl : ∀ name, .leaf (.symbol name) ∈ tokens → Known name :=
      fun name hname => hk name (mem_cons_of_mem tok hname)
    cases tok with
    | opening =>
      refine ih h hl nofun ?_
      intro fs hfs
      rcases mem_cons.1 hfs with rfl | ho
      · exact hi
      · exact ha fs ho
    | leaf v =>
      refine ih h hl ?_ ha
      intro f hf
      rcases mem_cons.1 hf with rfl | hb
      · intro name hname
        rw [leaves, mem_singleton] at hname
        exact hk name (by rw [hname]; exact mem_cons_self)
      · exact hi f hb
    | closing =>
      cases out with
      | nil => cases h
      | cons beside out =>
        refine ih h hl ?_ fun fs hfs => ha fs (mem_cons_of_mem beside hfs)
        intro f hf
        rcases mem_cons.1 hf with rfl | hb
        · exact names_list.2 fun g hg => hi g (mem_reverse.1 hg)
        · exact ha beside mem_cons_self f hb

end Form

namespace Program

variable {f : Form} {fs : List Form} {name : String}

theorem eq_of_symbol (h : symbol f = .ok name) : f = .leaf (.symbol name) := by
  unfold symbol at h
  split at h
  · next hf =>
    cases h
    unfold Form.symbol? at hf
    split at hf
    · cases hf
      rfl
    · cases hf
  · cases h

/-! ## Expressions -/

def exprWords : List String :=
  ["attr", "index", "list", "tuple", "dict", "python", "validate", "parallel", "call"]

/-- What a form is that was read as an expression, and what its parts were read as. -/
inductive Expr.Formed : Form → Expr → Prop
  | name {n} : Formed (.leaf (.symbol n)) (.name n)
  | literal {v} : (∀ n, v ≠ .symbol n) → Formed (.leaf v) (.literal v)
  | binary {op left right more l r e} : binaryOperators.contains op = true →
    ofForm left = .ok l → ofForm right = .ok r →
    chain op (.binary op l r) more = .ok e →
    Formed (.list (.leaf (.symbol op) :: left :: right :: more)) e
  | attr {base member b a} : ofForm base = .ok b → symbol member = .ok a →
    Formed (.list [.leaf (.symbol "attr"), base, member]) (.attr b a)
  | index {base key b i} : ofForm base = .ok b → ofForm key = .ok i →
    Formed (.list [.leaf (.symbol "index"), base, key]) (.index b i)
  | list {args es} : ofForms args = .ok es →
    Formed (.list (.leaf (.symbol "list") :: args)) (.list es)
  | tuple {args es} : ofForms args = .ok es →
    Formed (.list (.leaf (.symbol "tuple") :: args)) (.tuple es)
  | dict {args es} : entries args = .ok es →
    Formed (.list (.leaf (.symbol "dict") :: args)) (.dict es)
  | code {source} : Formed (.list [.leaf (.symbol "python"), .leaf (.str source)]) (.code source)
  | validate {schema data s d} : ofForm schema = .ok s → ofForm data = .ok d →
    Formed (.list [.leaf (.symbol "validate"), schema, data]) (.validateSchema s d)
  | labelled {args parts e} : args.length ≠ 2 → validateParts {} args = .ok parts →
    parts.toExpr = .ok e → Formed (.list (.leaf (.symbol "validate") :: args)) e
  | parallel {args ts} : tasks args = .ok ts →
    Formed (.list (.leaf (.symbol "parallel") :: args)) (.parallel ts)
  | call {func args f es named} : ofForm func = .ok f →
    arguments [] [] args = .ok (es, named) →
    Formed (.list (.leaf (.symbol "call") :: func :: args)) (.apply f es named)
  | invoke {word args es named} : word ∉ binaryOperators → word ∉ exprWords →
    arguments [] [] args = .ok (es, named) →
    Formed (.list (.leaf (.symbol word) :: args)) (.invoke word es named)
  | apply {func args f es named} : (∀ word, func ≠ .leaf (.symbol word)) →
    ofForm func = .ok f → arguments [] [] args = .ok (es, named) →
    Formed (.list (func :: args)) (.apply f es named)

variable {e : Expr} {cs : List Context}

theorem Expr.formed_of_word {word : String} {args : List Form}
    (h : Expr.ofForm (.list (.leaf (.symbol word) :: args)) = .ok e) :
    Expr.Formed (.list (.leaf (.symbol word) :: args)) e := by
  unfold Expr.ofForm at h
  split_ifs at h with op is is is is is is is is is
  · split at h
    · obtain ⟨l, first, h⟩ := of_bind_ok h
      obtain ⟨r, hs, h⟩ := of_bind_ok h
      exact .binary op first hs h
    · cases h
  · rw [eq_of_beq is]
    split at h
    · obtain ⟨b, first, h⟩ := of_bind_ok h
      obtain ⟨a, hs, ⟨⟩⟩ := of_bind_ok h
      exact .attr first hs
    · cases h
  · rw [eq_of_beq is]
    split at h
    · obtain ⟨b, first, h⟩ := of_bind_ok h
      obtain ⟨i, hs, ⟨⟩⟩ := of_bind_ok h
      exact .index first hs
    · cases h
  · obtain ⟨es, hi, ⟨⟩⟩ := of_bind_ok h
    exact eq_of_beq is ▸ .list hi
  · obtain ⟨es, hi, ⟨⟩⟩ := of_bind_ok h
    exact eq_of_beq is ▸ .tuple hi
  · obtain ⟨es, hi, ⟨⟩⟩ := of_bind_ok h
    exact eq_of_beq is ▸ .dict hi
  · rw [eq_of_beq is]
    split at h
    · cases h
      exact .code
    · cases h
  · rw [eq_of_beq is]
    split at h
    · obtain ⟨s, first, h⟩ := of_bind_ok h
      obtain ⟨d, hs, ⟨⟩⟩ := of_bind_ok h
      exact .validate first hs
    · next ho =>
      obtain ⟨parts, hr, h⟩ := of_bind_ok h
      refine .labelled (fun two => ?_) hr h
      obtain ⟨sch, data, hp⟩ := length_eq_two.1 two
      exact ho sch data hp
  · obtain ⟨ts, hi, ⟨⟩⟩ := of_bind_ok h
    exact eq_of_beq is ▸ .parallel hi
  · rw [eq_of_beq is]
    split at h
    · cases h
    · obtain ⟨f, first, h⟩ := of_bind_ok h
      obtain ⟨⟨es, named⟩, hs, ⟨⟩⟩ := of_bind_ok h
      exact .call first hs
  · obtain ⟨⟨es, named⟩, hr, ⟨⟩⟩ := of_bind_ok h
    exact .invoke (by simpa using op) (by simp_all [exprWords]) hr

theorem Expr.formed_of_ofForm (h : ofForm f = .ok e) : Formed f e := by
  cases f with
  | leaf v =>
    cases v with
    | symbol n =>
      rw [ofForm] at h
      cases h
      exact .name
    | _ =>
      rw [ofForm] at h
      · cases h
        exact .literal nofun
      · nofun
  | list xs =>
    cases xs with
    | nil =>
      rw [ofForm] at h
      cases h
    | cons func args =>
      by_cases hc : ∃ word, func = .leaf (.symbol word)
      · obtain ⟨word, rfl⟩ := hc
        exact formed_of_word h
      · have ho : ∀ word, func ≠ .leaf (.symbol word) := fun word hsa => hc ⟨word, hsa⟩
        rw [ofForm] at h
        · obtain ⟨f, first, h⟩ := of_bind_ok h
          obtain ⟨⟨es, named⟩, hs, ⟨⟩⟩ := of_bind_ok h
          exact .apply ho first hs
        · exact ho

/-! ## Statements -/

theorem Context.ne_nil_of_ofList (h : Context.ofList (f :: fs) = .ok cs) : cs ≠ [] := by
  cases f with
  | leaf v => cases h
  | list item =>
    rw [Context.ofList] at h
    obtain ⟨c, -, h⟩ := of_bind_ok h
    obtain ⟨rest, -, ⟨⟩⟩ := of_bind_ok h
    exact cons_ne_nil c rest

theorem Context.ne_nil_of_ofForm (h : Context.ofForm f = .ok cs) : cs ≠ [] := by
  unfold Context.ofForm at h
  split at h
  · exact Context.ne_nil_of_ofList h
  · obtain ⟨c, -, ⟨⟩⟩ := of_bind_ok h
    exact cons_ne_nil c []
  · cases h

def stmtWords : List String :=
  ["set", "return", "expr", "python", "if", "for", "while", "break", "continue", "raise", "assert",
    "with"]

/-- What a form is that was read as a statement, and what its parts were read as. -/
inductive Stmt.Formed : Form → Stmt → Prop
  | assign {n value v} : Expr.ofForm value = .ok v →
    Formed (.list [.leaf (.symbol "set"), .leaf (.symbol n), value]) (.assign n v)
  | ret {value v} : Expr.ofForm value = .ok v →
    Formed (.list [.leaf (.symbol "return"), value]) (.ret v)
  | expr {value v} : Expr.ofForm value = .ok v →
    Formed (.list [.leaf (.symbol "expr"), value]) (.eval v)
  | code {args lines} : allTexts .codeLines args = .ok lines →
    Formed (.list (.leaf (.symbol "python") :: args)) (.code lines)
  | branch {cond parts c t e} : Expr.ofForm cond = .ok c → Stmt.branches [] [] parts = .ok (t, e) →
    Formed (.list (.leaf (.symbol "if") :: cond :: parts)) (.branch c t e)
  | forEach {v iter body more i b} : Expr.ofForm iter = .ok i → Stmt.ofForms body = .ok b →
    Formed (.list (.leaf (.symbol "for") :: .leaf (.symbol v) :: iter ::
      .list (.leaf (.symbol "do") :: body) :: more)) (.forEach v i b)
  | loop {cond body more c b} : Expr.ofForm cond = .ok c → Stmt.ofForms body = .ok b →
    Formed (.list (.leaf (.symbol "while") :: cond ::
      .list (.leaf (.symbol "do") :: body) :: more)) (.loop c b)
  | leave {args} : Formed (.list (.leaf (.symbol "break") :: args)) .leave
  | next {args} : Formed (.list (.leaf (.symbol "continue") :: args)) .next
  | rethrow : Formed (.list [.leaf (.symbol "raise")]) (.throw none)
  | throw {value v} : Expr.ofForm value = .ok v →
    Formed (.list [.leaf (.symbol "raise"), value]) (.throw (some v))
  | check {cond c} : Expr.ofForm cond = .ok c →
    Formed (.list [.leaf (.symbol "assert"), cond]) (.check c none)
  | checkTold {cond message more c m} : Expr.ofForm cond = .ok c → Expr.ofForm message = .ok m →
    Formed (.list (.leaf (.symbol "assert") :: cond :: message :: more)) (.check c (some m))
  | withContexts {items body more cs b} : Context.ofForm items = .ok cs → Stmt.ofForms body = .ok b →
    Formed (.list (.leaf (.symbol "with") :: items ::
      .list (.leaf (.symbol "do") :: body) :: more)) (.withContexts cs b)
  | eval {f v} : (∀ word args, f = .list (.leaf (.symbol word) :: args) → word ∉ stmtWords) →
    Expr.ofForm f = .ok v → Formed f (.eval v)

variable {ss : List Stmt}

theorem Stmt.exists_body {shape word : FormError} (h : Stmt.ofBody shape word f = .ok ss) :
    ∃ body, f = .list (.leaf (.symbol "do") :: body) ∧ Stmt.ofForms body = .ok ss := by
  unfold Stmt.ofBody at h
  split at h
  · obtain ⟨t, hn, h⟩ := of_bind_ok h
    obtain ⟨-, ⟨⟩⟩ | ⟨tag, h⟩ := ite_eq_iff.1 h
    refine ⟨_, ?_, h⟩
    rw [eq_of_symbol hn, show t = "do" by simpa using tag]
  · cases h

theorem Stmt.formed_of_ofForm {s : Stmt} (h : Stmt.ofForm f = .ok s) : Stmt.Formed f s := by
  unfold Stmt.ofForm at h
  split at h
  next head args =>
    rcases ite_eq_iff.1 h with ⟨is, h⟩ | ⟨no, h⟩
    · unfold Stmt.ofAssign at h
      split at h
      · obtain ⟨n, hn, h⟩ := of_bind_ok h
        obtain ⟨v, hv, ⟨⟩⟩ := of_bind_ok h
        rw [eq_of_beq is, eq_of_symbol hn]
        exact .assign hv
      · cases h
    rcases ite_eq_iff.1 h with ⟨is, h⟩ | ⟨no, h⟩
    · unfold Stmt.ofReturn at h
      split at h
      · obtain ⟨v, hv, ⟨⟩⟩ := of_bind_ok h
        exact eq_of_beq is ▸ .ret hv
      · cases h
    rcases ite_eq_iff.1 h with ⟨is, h⟩ | ⟨no, h⟩
    · unfold Stmt.ofEval at h
      split at h
      · obtain ⟨v, hv, ⟨⟩⟩ := of_bind_ok h
        exact eq_of_beq is ▸ .expr hv
      · cases h
    rcases ite_eq_iff.1 h with ⟨is, h⟩ | ⟨no, h⟩
    · obtain ⟨ls, ht, ⟨⟩⟩ := of_bind_ok h
      exact eq_of_beq is ▸ .code ht
    rcases ite_eq_iff.1 h with ⟨is, h⟩ | ⟨no, h⟩
    · unfold Stmt.ofIf at h
      split at h
      · obtain ⟨c, hc, h⟩ := of_bind_ok h
        obtain ⟨⟨t, e⟩, parts, ⟨⟩⟩ := of_bind_ok h
        exact eq_of_beq is ▸ .branch hc parts
      · cases h
    rcases ite_eq_iff.1 h with ⟨is, h⟩ | ⟨no, h⟩
    · unfold Stmt.ofFor at h
      split at h
      · simp only [except_bind_eq_ok_iff] at h
        obtain ⟨v, hn, i, hit, b, hr, ⟨⟩⟩ := h
        obtain ⟨body, rfl, hr⟩ := Stmt.exists_body hr
        rw [eq_of_beq is, eq_of_symbol hn]
        exact .forEach hit hr
      · cases h
    rcases ite_eq_iff.1 h with ⟨is, h⟩ | ⟨no, h⟩
    · unfold Stmt.ofWhile at h
      split at h
      · obtain ⟨c, hc, h⟩ := of_bind_ok h
        obtain ⟨b, hr, ⟨⟩⟩ := of_bind_ok h
        obtain ⟨body, rfl, hr⟩ := Stmt.exists_body hr
        exact eq_of_beq is ▸ .loop hc hr
      · cases h
    rcases ite_eq_iff.1 h with ⟨is, h⟩ | ⟨no, h⟩
    · cases h
      exact eq_of_beq is ▸ .leave
    rcases ite_eq_iff.1 h with ⟨is, h⟩ | ⟨no, h⟩
    · cases h
      exact eq_of_beq is ▸ .next
    rcases ite_eq_iff.1 h with ⟨is, h⟩ | ⟨no, h⟩
    · unfold Stmt.ofThrow at h
      split at h
      · cases h
        exact eq_of_beq is ▸ .rethrow
      · obtain ⟨v, hv, ⟨⟩⟩ := of_bind_ok h
        exact eq_of_beq is ▸ .throw hv
      · cases h
    rcases ite_eq_iff.1 h with ⟨is, h⟩ | ⟨no, h⟩
    · unfold Stmt.ofCheck at h
      split at h
      · cases h
      · obtain ⟨c, hc, ⟨⟩⟩ := of_bind_ok h
        exact eq_of_beq is ▸ .check hc
      · obtain ⟨c, hc, h⟩ := of_bind_ok h
        obtain ⟨m, hm, ⟨⟩⟩ := of_bind_ok h
        exact eq_of_beq is ▸ .checkTold hc hm
    rcases ite_eq_iff.1 h with ⟨is, h⟩ | ⟨no, h⟩
    · unfold Stmt.ofWith at h
      split at h
      · obtain ⟨cs, hi, h⟩ := of_bind_ok h
        obtain ⟨b, hr, ⟨⟩⟩ := of_bind_ok h
        obtain ⟨body, rfl, hr⟩ := Stmt.exists_body hr
        exact eq_of_beq is ▸ .withContexts hi hr
      · cases h
    obtain ⟨v, hv, ⟨⟩⟩ := of_bind_ok h
    refine .eval ?_ hv
    rintro _ _ ⟨⟩
    simp_all [stmtWords]
  next hno =>
    obtain ⟨v, hv, ⟨⟩⟩ := of_bind_ok h
    exact .eval (fun word args hs => absurd hs (hno word args)) hv

/-- A property of forms that their items have too gives a property of the statements that are read
from such forms. -/
structure Stmt.Reads (H : Form → Prop) (P : Stmt → Prop) : Prop where
  item : ∀ items, H (.list items) → ∀ f ∈ items, H f
  assign : ∀ n f v, H (.leaf (.symbol n)) → H f → Expr.ofForm f = .ok v → P (.assign n v)
  eval : ∀ f v, H f → Expr.ofForm f = .ok v → P (.eval v)
  code : ∀ args lines, H (.list (.leaf (.symbol "python") :: args)) → P (.code lines)
  ret : ∀ v, P (.ret v)
  leave : P .leave
  next : P .next
  throw : ∀ v, P (.throw v)
  check : ∀ c m, P (.check c m)
  branch : ∀ c t e, (∀ s ∈ t, P s) → (∀ s ∈ e, P s) → P (.branch c t e)
  forEach : ∀ v i b, (∀ s ∈ b, P s) → P (.forEach v i b)
  loop : ∀ c b, (∀ s ∈ b, P s) → P (.loop c b)
  withContexts : ∀ cs b, cs ≠ [] → (∀ s ∈ b, P s) → P (.withContexts cs b)

section reads

variable {H : Form → Prop} {P : Stmt → Prop} (reads : Stmt.Reads H P)

include reads

theorem Stmt.Reads.inner {xs body : List Form} (hw : H (.list xs))
    (mem : .list (.leaf (.symbol "do") :: body) ∈ xs) : ∀ f ∈ body, H f :=
  fun f hf => reads.item _ (reads.item _ hw _ mem) f (mem_cons_of_mem _ hf)

mutual
theorem Stmt.Reads.of_ofForm : ∀ (f : Form) {s : Stmt}, Stmt.ofForm f = .ok s → H f → P s
  | f, s, h, hw => by
    cases Stmt.formed_of_ofForm h with
    | assign hv =>
      have parts := reads.item _ hw
      exact reads.assign _ _ _ (parts _ (by simp)) (parts _ (by simp)) hv
    | expr hv => exact reads.eval _ _ (reads.item _ hw _ (by simp)) hv
    | eval _ hv => exact reads.eval _ _ hw hv
    | code => exact reads.code _ _ hw
    | ret => exact reads.ret _
    | leave => exact reads.leave
    | next => exact reads.next
    | rethrow | throw => exact reads.throw _
    | check | checkTold => exact reads.check _ _
    | branch _ parts =>
      obtain ⟨yes, no⟩ := Stmt.Reads.of_branches _ parts
        (fun f hf => reads.item _ hw f (by simp [hf])) nofun nofun
      exact reads.branch _ _ _ yes no
    | forEach _ hb =>
      exact reads.forEach _ _ _ (Stmt.Reads.of_ofForms _ hb (reads.inner hw (by simp)))
    | loop _ hb =>
      exact reads.loop _ _ (Stmt.Reads.of_ofForms _ hb (reads.inner hw (by simp)))
    | withContexts hi hb =>
      exact reads.withContexts _ _ (Context.ne_nil_of_ofForm hi)
        (Stmt.Reads.of_ofForms _ hb (reads.inner hw (by simp)))
termination_by node => sizeOf node
theorem Stmt.Reads.of_ofForms : ∀ (fs : List Form) {ss : List Stmt},
    Stmt.ofForms fs = .ok ss → (∀ f ∈ fs, H f) → ∀ s ∈ ss, P s
  | [], ss, h, _ => by
    rw [Stmt.ofForms] at h
    cases h
    exact nofun
  | f :: fs, ss, h, parts => by
    rw [Stmt.ofForms] at h
    obtain ⟨s, first, h⟩ := of_bind_ok h
    obtain ⟨rest, more, ⟨⟩⟩ := of_bind_ok h
    obtain ⟨here, there⟩ := forall_mem_cons.1 parts
    exact forall_mem_cons.2
      ⟨Stmt.Reads.of_ofForm f first here, Stmt.Reads.of_ofForms fs more there⟩
termination_by node => sizeOf node
theorem Stmt.Reads.of_branches : ∀ (parts : List Form) {t e : List Stmt}
    {both : List Stmt × List Stmt}, Stmt.branches t e parts = .ok both → (∀ f ∈ parts, H f) →
    (∀ s ∈ t, P s) → (∀ s ∈ e, P s) → (∀ s ∈ both.1, P s) ∧ ∀ s ∈ both.2, P s
  | parts, t, e, both, h, hw, yes, no => by
    unfold Stmt.branches at h
    split at h
    next =>
      cases h
      exact ⟨yes, no⟩
    next tag body more =>
      obtain ⟨word, -, h⟩ := of_bind_ok h
      obtain ⟨hp, ho⟩ := forall_mem_cons.1 hw
      have hi : ∀ f ∈ body, H f := fun f hf => reads.item _ hp f (mem_cons_of_mem tag hf)
      rcases ite_eq_iff.1 h with ⟨-, h⟩ | ⟨-, h⟩
      · obtain ⟨b, hr, h⟩ := of_bind_ok h
        exact Stmt.Reads.of_branches more h ho (Stmt.Reads.of_ofForms body hr hi) no
      · obtain ⟨-, h⟩ | ⟨-, ⟨⟩⟩ := ite_eq_iff.1 h
        obtain ⟨b, hr, h⟩ := of_bind_ok h
        exact Stmt.Reads.of_branches more h ho yes (Stmt.Reads.of_ofForms body hr hi)
    next => cases h
termination_by node => sizeOf node
end

end reads

theorem Stmt.allHaveContexts_of_forall (h : ∀ s ∈ ss, s.HasContexts) :
    Stmt.AllHaveContexts ss := by
  induction ss with
  | nil => rw [Stmt.AllHaveContexts]; trivial
  | cons s ss ih =>
    obtain ⟨first, hr⟩ := forall_mem_cons.1 h
    exact ⟨first, ih hr⟩

theorem Stmt.reads_hasContexts : Stmt.Reads (fun _ => True) Stmt.HasContexts where
  item _ _ _ _ := trivial
  assign _ _ _ _ _ _ := trivial
  eval _ _ _ _ := trivial
  code _ _ _ := trivial
  ret _ := trivial
  leave := trivial
  next := trivial
  throw _ := trivial
  check _ _ := trivial
  branch _ _ _ yes no := ⟨Stmt.allHaveContexts_of_forall yes, Stmt.allHaveContexts_of_forall no⟩
  forEach _ _ _ hb := Stmt.allHaveContexts_of_forall hb
  loop _ _ hb := Stmt.allHaveContexts_of_forall hb
  withContexts _ _ some hb := ⟨some, Stmt.allHaveContexts_of_forall hb⟩

theorem Stmt.allHaveContexts_of_ofForms (fs : List Form)
    (h : Stmt.ofForms fs = .ok ss) : Stmt.AllHaveContexts ss :=
  Stmt.allHaveContexts_of_forall (Stmt.reads_hasContexts.of_ofForms fs h fun _ _ => trivial)

/-! ## Steps -/

open Sexpr (Leaf)

variable {Known : String → Prop} {parts : List Form}

theorem known_of_symbol (h : symbol f = .ok name) (hn : f.Names Known) : Known name := by
  rw [eq_of_symbol h] at hn
  exact hn name (by simp [Form.leaves])

theorem known_of_symbols {ns : List String} (h : symbols fs = .ok ns)
    (hn : ∀ f ∈ fs, f.Names Known) : ∀ n ∈ ns, Known n := by
  induction fs generalizing ns with
  | nil =>
    cases h
    exact nofun
  | cons f fs ih =>
    rw [symbols] at h
    obtain ⟨n, first, h⟩ := of_bind_ok h
    obtain ⟨rest, hmo, ⟨⟩⟩ := of_bind_ok h
    intro m hm
    rcases mem_cons.1 hm with rfl | hl
    · exact known_of_symbol first (hn f mem_cons_self)
    · exact ih hmo (fun g hg => hn g (mem_cons_of_mem f hg)) m hl

def Property.Fits (Known : String → Prop) (key : String) : Property → Prop
  | .params names => key = "params" ∧ ∀ n ∈ names, Known n
  | .number v => (key = "retry" ∨ key = "timeout") ∧ (Node.ofLeaf v).isWhole = true
  | .guard _ => key = "guard"
  | .produces _ => key = "produces"
  | .body (.lines _) => key = "body"
  | .body (.block b) => key = "body" ∧ Stmt.AllHaveContexts b
  | .ret _ => key = "return"

theorem Body.fits_of_ofForms {b : Body} (h : Body.ofForms parts = .ok b) :
    (Property.body b).Fits Known "body" := by
  unfold Body.ofForms at h
  split at h
  · cases h
    exact rfl
  · obtain ⟨-, ⟨⟩⟩ | ⟨-, h⟩ := ite_eq_iff.1 h
    obtain ⟨ss, hr, ⟨⟩⟩ := of_bind_ok h
    exact ⟨rfl, Stmt.allHaveContexts_of_ofForms parts hr⟩

variable {key : String} {p : Property} {forms : List Form}

theorem fits_of_wholeNumber (h : wholeNumber key parts = .ok p)
    (hn : key = "retry" ∨ key = "timeout") : p.Fits Known key := by
  unfold wholeNumber at h
  split at h
  iterate 2
    · cases h
      exact ⟨hn, rfl⟩
  · cases h

theorem Property.fits_of_ofForms
    (h : Property.ofForms key parts = .ok p) (hn : ∀ f ∈ parts, f.Names Known) : p.Fits Known key := by
  unfold Property.ofForms at h
  split_ifs at h with key key key key key key
  · obtain ⟨ns, hr, ⟨⟩⟩ := of_bind_ok h
    exact ⟨beq_iff_eq.1 key, known_of_symbols hr hn⟩
  · exact fits_of_wholeNumber h (by simpa using key)
  · obtain ⟨ts, -, ⟨⟩⟩ := of_bind_ok h
    exact beq_iff_eq.1 key
  · split at h
    · cases h
      exact beq_iff_eq.1 key
    · cases h
  · obtain ⟨b, hr, ⟨⟩⟩ := of_bind_ok h
    rw [beq_iff_eq.1 key]
    exact Body.fits_of_ofForms hr
  · split at h
    · obtain ⟨e, -, ⟨⟩⟩ := of_bind_ok h
      exact beq_iff_eq.1 key
    · cases h

theorem Property.fits_of_ofList {opts : List Form} {known properties : Entries Property}
    (h : Property.ofList known opts = .ok properties) (hn : ∀ f ∈ opts, f.Names Known)
    (hfi : ∀ e ∈ known, e.2.Fits Known e.1) : ∀ e ∈ properties, e.2.Fits Known e.1 := by
  induction opts generalizing known with
  | nil =>
    cases h
    exact hfi
  | cons option opts ih =>
    unfold Property.ofList at h
    split at h
    · cases h
      exact hfi
    · next head parts fs eq =>
      cases eq
      obtain ⟨key, -, h⟩ := of_bind_ok h
      obtain ⟨p, hr, h⟩ := of_bind_ok h
      refine ih h (fun f hf => hn f (mem_cons_of_mem _ hf)) ?_
      intro e he
      rcases mem_of_mem_put he with rfl | hb
      · refine Property.fits_of_ofForms hr fun f hf => ?_
        exact Form.names_list.1 (hn _ mem_cons_self) f (mem_cons_of_mem head hf)
      · exact hfi e hb
    · cases h

structure Step.Fits (Known : String → Prop) (s : Step) : Prop where
  name : Known s.name
  properties : ∀ e ∈ s.properties, e.2.Fits Known e.1

theorem Step.fits_of_ofForms {s : Step} (h : Step.ofForms parts = .ok s)
    (hn : ∀ f ∈ parts, f.Names Known) : s.Fits Known := by
  cases parts with
  | nil => cases h
  | cons name opts =>
    rw [Step.ofForms] at h
    obtain ⟨n, hna, h⟩ := of_bind_ok h
    obtain ⟨properties, hr, ⟨⟩⟩ := of_bind_ok h
    refine ⟨known_of_symbol hna (hn name mem_cons_self), ?_⟩
    refine Property.fits_of_ofList hr (fun f hf => hn f (mem_cons_of_mem name hf)) ?_
    intro e he
    cases mem_singleton.1 he
    exact ⟨rfl, nofun⟩

/-! ## Programs -/

theorem known_of_dataEntries {complaint : FormError} {known es : Entries Form}
    (h : dataEntries complaint known fs = .ok es) (hn : ∀ f ∈ fs, f.Names Known)
    (hb : ∀ e ∈ known, Known e.1) : ∀ e ∈ es, Known e.1 := by
  induction fs generalizing known with
  | nil =>
    cases h
    exact hb
  | cons f fs ih =>
    unfold dataEntries at h
    split at h
    · cases h
      exact hb
    · next key v rest eq =>
      cases eq
      obtain ⟨k, hna, h⟩ := of_bind_ok h
      refine ih h (fun g hg => hn g (mem_cons_of_mem _ hg)) ?_
      intro e he
      rcases mem_of_mem_put he with rfl | hea
      · have hp := Form.names_list.1 (hn _ mem_cons_self)
        exact known_of_symbol hna (hp key mem_cons_self)
      · exact hb e hea
    · cases h

def Run.Fits : Run → Prop
  | .expr _ => True
  | .block b => Stmt.AllHaveContexts b

theorem Run.fits_of_ofForms {r : Run} (h : Run.ofForms parts = .ok r) : r.Fits := by
  unfold Run.ofForms at h
  split at h
  · next body =>
    obtain ⟨ss, hr, ⟨⟩⟩ := of_bind_ok h
    exact Stmt.allHaveContexts_of_ofForms body hr
  · obtain ⟨e, -, ⟨⟩⟩ := of_bind_ok h
    trivial
  · cases h

structure Draft.Fits (Known : String → Prop) (p : Draft) : Prop where
  inputs : ∀ e ∈ p.inputs, Known e.1
  steps : ∀ s ∈ p.steps, s.Fits Known
  run : ∀ r, p.run = some r → r.Fits

theorem Draft.fits_of_add {p q : Draft} (h : p.add name parts = .ok q)
    (hn : ∀ f ∈ parts, f.Names Known) (hf : p.Fits Known) : q.Fits Known := by
  unfold Draft.add at h
  split_ifs at h
  iterate 3
    · obtain ⟨_, -, ⟨⟩⟩ := of_bind_ok h
      exact ⟨hf.inputs, hf.steps, hf.run⟩
  · rcases parts with _ | ⟨key, _ | ⟨v, _ | ⟨b, rest⟩⟩⟩
    · cases h
    · cases h
    · obtain ⟨k, hna, ⟨⟩⟩ := of_bind_ok h
      refine ⟨?_, hf.steps, hf.run⟩
      intro e he
      rcases mem_of_mem_put he with rfl | hb
      · exact known_of_symbol hna (hn key mem_cons_self)
      · exact hf.inputs e hb
    · cases h
  · obtain ⟨es, hr, ⟨⟩⟩ := of_bind_ok h
    exact ⟨known_of_dataEntries hr hn hf.inputs, hf.steps, hf.run⟩
  · obtain ⟨s, hr, ⟨⟩⟩ := of_bind_ok h
    refine ⟨hf.inputs, ?_, hf.run⟩
    intro t ht
    rcases mem_append.1 ht with hb | hl
    · exact hf.steps t hb
    · rw [mem_singleton.1 hl]
      exact Step.fits_of_ofForms hr hn
  · obtain ⟨r, hr, ⟨⟩⟩ := of_bind_ok h
    refine ⟨hf.inputs, hf.steps, ?_⟩
    rintro r ⟨⟩
    exact Run.fits_of_ofForms hr

theorem Draft.fits_of_addAll {p q : Draft} (h : p.addAll forms = .ok q)
    (hn : ∀ f ∈ forms, f.Names Known) (hf : p.Fits Known) : q.Fits Known := by
  induction forms generalizing p with
  | nil =>
    cases h
    exact hf
  | cons f forms ih =>
    unfold Draft.addAll at h
    split at h
    · cases h
      exact hf
    · next name parts rest eq =>
      cases eq
      obtain ⟨r, ha, h⟩ := of_bind_ok h
      refine ih h (fun g hg => hn g (mem_cons_of_mem _ hg)) ?_
      refine Draft.fits_of_add ha (fun g hg => ?_) hf
      exact Form.names_list.1 (hn _ mem_cons_self) g (mem_cons_of_mem _ hg)
    · cases h
    · cases h

structure Tree.Fits (Known : String → Prop) (tree : Tree) : Prop where
  inputs : ∀ e ∈ tree.inputs, Known e.1
  steps : ∀ s ∈ tree.steps, s.Fits Known
  run : tree.run.Fits

variable {tree : Tree}

theorem Tree.fits_of_ofForms (h : Tree.ofForms forms = .ok tree)
    (hna : ∀ f ∈ forms, f.Names Known) : tree.Fits Known := by
  unfold Tree.ofForms at h
  obtain ⟨p, hr, h⟩ := of_bind_ok h
  have hn : Draft.Fits Known {} := ⟨nofun, nofun, nofun⟩
  have hf := Draft.fits_of_addAll hr hna hn
  split at h <;> cases h
  next r run => exact ⟨hf.inputs, hf.steps, hf.run r run⟩

/-- A program that was read fits, and no name in it holds a character that ends a word. -/
theorem Tree.fits_of_parse {src : String} (h : parse src = .ok tree) :
    tree.Fits fun name => ∀ c ∈ name.toList, Sexpr.endsWord c = false := by
  unfold parse at h
  obtain ⟨tokens, cut, h⟩ := of_bind_ok h
  obtain ⟨forms, ha, h⟩ := of_bind_ok h
  refine Tree.fits_of_ofForms (mapError_eq_ok h) ?_
  refine Form.names_of_assembleFrom (mapError_eq_ok ha) ?_ nofun nofun
  intro name hname
  exact (Sexpr.unbroken_of_tokensFrom (mapError_eq_ok cut) trivial _ hname).2

end Program

end Appwright
