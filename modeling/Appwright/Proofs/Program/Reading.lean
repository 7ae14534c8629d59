import Appwright.Proofs.Program.Parsing
import Mathlib.Algebra.Order.Group.Multiset
import Mathlib.Data.List.Permutation
import Mathlib.Tactic.Abel

/-!
# What reading a form keeps

The values of a form are its texts, numbers and constants. Reading a form as an expression or as a
statement keeps them as literals, except in the parts that it reads over: what follows the last part
that a statement takes, and each part that a later one of the same kind replaces. Nothing else is
lost and nothing is added (`values_of_read`). Labels are read over in another way: a `validate` form
of two labelled entries takes them for calls (`labels_of_validate`).
-/

namespace Appwright

open List Form Entries

open Program (Node)

def Sexpr.Leaf.value? : Sexpr.Leaf → Option Node
  | .symbol _ => none
  | v => some (.ofLeaf v)

def Form.valuesOfAll (fs : List Form) : Multiset Node :=
  ↑((leavesOfAll fs).filterMap Sexpr.Leaf.value?)

def Form.values (f : Form) : Multiset Node :=
  ↑(f.leaves.filterMap Sexpr.Leaf.value?)

@[simp] theorem Form.values_list (xs : List Form) : (list xs).values = valuesOfAll xs := rfl

@[simp] theorem Form.values_symbol (name : String) : (leaf (.symbol name)).values = 0 := rfl

@[simp] theorem Form.values_text (s : String) : (leaf (.str s)).values = {.str s} := rfl

@[simp] theorem Form.valuesOfAll_nil : valuesOfAll [] = 0 := rfl

@[simp] theorem Form.valuesOfAll_cons (f : Form) (fs : List Form) :
    valuesOfAll (f :: fs) = f.values + valuesOfAll fs := by
  simp [valuesOfAll, values, leavesOfAll]

namespace Program

mutual
/-- The values that a document keeps: what stands under `literal`, and the code under `python`. -/
def Node.literalsUnder (key : String) : Node → Multiset Node
  | .obj members => Node.memberLiterals members
  | .list items => if key = "python" then ↑items else Node.itemLiterals items
  | v => if key = "literal" ∨ key = "python" then {v} else 0
def Node.itemLiterals : List Node → Multiset Node
  | [] => 0
  | v :: vs => v.literalsUnder "" + Node.itemLiterals vs
def Node.memberLiterals : List (String × Node) → Multiset Node
  | [] => 0
  | (k, v) :: ms => v.literalsUnder k + Node.memberLiterals ms
end

def Node.literals (v : Node) : Multiset Node :=
  v.literalsUnder ""

@[simp] theorem Node.literals_obj (ms : List (String × Node)) :
    (Node.obj ms).literals = Node.memberLiterals ms := by
  rw [Node.literals, Node.literalsUnder]

attribute [local simp] Node.literalsUnder Node.itemLiterals Node.memberLiterals

/-- A named argument may be called `literal`; its expression is an object all the same. -/
@[simp] theorem Expr.literalsUnder (key : String) (e : Expr) :
    e.toNode.literalsUnder key = e.toNode.literals := by
  cases e <;> simp only [toNode, Node.literals_obj, Node.literalsUnder]

@[simp] theorem Stmt.literalsUnder (key : String) (s : Stmt) :
    s.toNode.literalsUnder key = s.toNode.literals := by
  unfold Stmt.toNode
  split <;> simp only [Node.literals_obj, Node.literalsUnder]

/-! ## Parts that are read over -/

def argumentName? : Form → Option String
  | .list [.leaf (.symbol "kw"), key, _] => key.symbol?
  | _ => none

def partOf? (synonyms : Entries String) : Form → Option String
  | .list (label :: _) => label.symbol?.map fun word => (synonyms.get? word).getD word
  | _ => none

/-- What an entry of a labelled `validate` form gives: a model takes the place of a schema. -/
def entryPart? : Form → Option String :=
  partOf? [("model", "schema")]

def branchPart? : Form → Option String :=
  partOf? [("do", "then")]

def gives (part? : Form → Option String) (part : Option String) (fs : List Form) : Bool :=
  fs.any fun f => part? f == part

mutual
/-- The values in those parts of an expression that are read over. -/
def Expr.lost : Form → Multiset Node
  | .list (.leaf (.symbol head) :: args) =>
    if head = "dict" ∨ head = "parallel" then lostOfEntries args
    else if head = "validate" ∧ args.length ≠ 2 then lostOfParts args
    else if head = "call" then lostOfCall args
    else if head ∈ ["attr", "index", "list", "tuple", "python", "validate"] ++ binaryOperators then
      lostOfAll args
    else lostOfArguments args
  | .list items => lostOfCall items
  | .leaf _ => 0
def Expr.lostOfAll : List Form → Multiset Node
  | [] => 0
  | f :: fs => lost f + lostOfAll fs
def Expr.lostOfEntries : List Form → Multiset Node
  | .list items :: fs => lostOfAll items + lostOfEntries fs
  | _ => 0
def Expr.lostOfParts : List Form → Multiset Node
  | .list [label, value] :: fs =>
    (if gives entryPart? (entryPart? (.list [label, value])) fs then value.values
      else lost value) + lostOfParts fs
  | _ => 0
def Expr.lostOfCall : List Form → Multiset Node
  | func :: args => lost func + lostOfArguments args
  | [] => 0
def Expr.lostOfArguments : List Form → Multiset Node
  | [] => 0
  | .list [.leaf (.symbol "kw"), key, value] :: fs =>
    (if gives argumentName? key.symbol? fs then value.values else lost value) +
      lostOfArguments fs
  | f :: fs => lost f + lostOfArguments fs
end

/-- The values that are lost where only so many expressions are read. -/
def Expr.lostAfter (count : Nat) (fs : List Form) : Multiset Node :=
  lostOfAll (fs.take count) + valuesOfAll (fs.drop count)

def Context.lostOfList : List Form → Multiset Node
  | .list item :: fs => Expr.lostAfter 2 item + Context.lostOfList fs
  | _ => 0

def Context.lost : Form → Multiset Node
  | .list (.list item :: fs) => Context.lostOfList (.list item :: fs)
  | .list item => Expr.lostAfter 2 item
  | .leaf _ => 0

mutual
/-- The values in those parts of a statement that are read over. -/
def Stmt.lost : Form → Multiset Node
  | .list (.leaf (.symbol "if") :: cond :: parts) => Expr.lost cond + Stmt.lostOfBranches parts
  | .list (.leaf (.symbol "for") :: _ :: iter :: .list (_ :: body) :: more) =>
    Expr.lost iter + Stmt.lostOfAll body + valuesOfAll more
  | .list (.leaf (.symbol "while") :: cond :: .list (_ :: body) :: more) =>
    Expr.lost cond + Stmt.lostOfAll body + valuesOfAll more
  | .list (.leaf (.symbol "with") :: items :: .list (_ :: body) :: more) =>
    Context.lost items + Stmt.lostOfAll body + valuesOfAll more
  | .list (.leaf (.symbol head) :: args) =>
    if head = "break" ∨ head = "continue" then valuesOfAll args
    else if head = "assert" then Expr.lostAfter 2 args
    else if head ∈ ["set", "return", "expr", "python", "raise"] then Expr.lostOfAll args
    else Expr.lost (.list (.leaf (.symbol head) :: args))
  | f => Expr.lost f
def Stmt.lostOfAll : List Form → Multiset Node
  | [] => 0
  | f :: fs => Stmt.lost f + Stmt.lostOfAll fs
def Stmt.lostOfBranches : List Form → Multiset Node
  | .list (tag :: body) :: fs =>
    (if gives branchPart? (branchPart? (.list (tag :: body))) fs then valuesOfAll body
      else Stmt.lostOfAll body) + Stmt.lostOfBranches fs
  | _ => 0
end

@[simp] theorem gives_cons (part? : Form → Option String) (part : Option String) (f : Form)
    (fs : List Form) : gives part? part (f :: fs) = (part? f == part || gives part? part fs) := rfl

variable {f : Form} {name : String}

theorem lost_of_symbol (h : symbol f = .ok name) :
    f.values = 0 ∧ Expr.lost f = 0 := by
  rw [eq_of_symbol h]
  exact ⟨rfl, rfl⟩

/-! ## Expressions -/

attribute [local simp] Expr.toNode Expr.toNodes Expr.namedNodes Expr.lost Expr.lostOfAll
  Expr.lostOfEntries Expr.lostAfter Stmt.toNode Stmt.toNodes Stmt.lost symbol?

theorem kept_add_lost {all kept lost : Multiset Node} (h : all = kept + lost) (b : Bool) :
    (if b then 0 else kept) + (if b then all else lost) = all := by
  cases b <;> simp [h]

/-- What named expressions keep, those of some names left out. -/
def keptOf (replaced : String → Bool) (named : Entries Expr) : Multiset Node :=
  Node.memberLiterals (Expr.namedNodes (named.filter fun e => !replaced e.1))

variable {args : List Form} (replaced : String → Bool) {named : Entries Expr} {es es' : List Expr}

@[simp] theorem keptOf_cons (name : String) (e : Expr) (named : Entries Expr) :
    keptOf replaced ((name, e) :: named) =
      (if replaced name then 0 else e.toNode.literals) + keptOf replaced named := by
  cases h : replaced name <;> simp [keptOf, h]

theorem keptOf_of_not_mem (ha : name ∉ named.names) (replaced : String → Bool) :
    keptOf (fun k => name == k || replaced k) named = keptOf replaced named := by
  unfold keptOf
  congr 2
  refine filter_congr fun e he => ?_
  have ho : name ≠ e.1 := fun hs => ha (hs ▸ mem_map_of_mem he)
  simp [ho]

theorem keptOf_put (name : String) (e : Expr) (hd : named.names.Nodup) :
    keptOf replaced (named.put name e) = (if replaced name then 0 else e.toNode.literals) +
        keptOf (fun k => name == k || replaced k) named := by
  induction named with
  | nil => exact keptOf_cons replaced name e []
  | cons first named ih =>
    obtain ⟨k, v⟩ := first
    obtain ⟨new, hd⟩ := nodup_cons.1 hd
    by_cases hs : k = name
    · subst hs
      simp [put, keptOf_of_not_mem new]
    · have ho : (name == k) = false := beq_false_of_ne (Ne.symm hs)
      simp [put, hs, ho, ih hd]
      abel

/-- What the parts of a labelled `validate` form keep, replaced ones left out. -/
def ValidateParts.kept (parts : ValidateParts) (fs : List Form) : Multiset Node :=
  (if gives entryPart? (some "schema") fs then 0
    else (parts.schema.map fun e => e.toNode.literals).getD 0) +
  if gives entryPart? (some "data") fs then 0
    else (parts.data.map fun e => e.toNode.literals).getD 0

theorem ValidateParts.literals_toExpr {ps : ValidateParts} {e : Expr}
    (h : ps.toExpr = .ok e) : e.toNode.literals = ps.kept [] := by
  obtain ⟨sch, isModel, data⟩ := ps
  cases data with
  | none => cases h
  | some d =>
    cases sch with
    | none => cases h
    | some s =>
      cases h
      cases isModel <;> simp [ValidateParts.kept, gives]

theorem Expr.lost_of_operator {op : String} (h : binaryOperators.contains op) :
    lost (.list (.leaf (.symbol op) :: args)) = lostOfAll args := by
  rw [contains_iff_mem] at h
  have ho (word : String) (ha : word ∉ binaryOperators) : op ≠ word := fun hs => ha (hs ▸ h)
  rw [lost, if_neg, if_neg, if_neg, if_pos]
  · exact mem_append_right _ h
  · exact ho _ (by decide)
  · exact fun hb => ho _ (by decide) hb.1
  · exact not_or.2 ⟨ho _ (by decide), ho _ (by decide)⟩

theorem Expr.lost_of_invoke {word : String} (hn : word ∉ binaryOperators) (hno : word ∉ exprWords) :
    lost (.list (.leaf (.symbol word) :: args)) = lostOfArguments args := by
  simp_all [exprWords]

theorem Expr.lost_of_apply {func : Form} (h : ∀ word, func ≠ .leaf (.symbol word)) :
    lost (.list (func :: args)) = lost func + lostOfArguments args := by
  rw [lost, lostOfCall]
  rintro word _ ⟨⟩
  exact h word rfl

theorem Expr.itemLiterals_perm (h : es.Perm es') :
    Node.itemLiterals (toNodes es) = Node.itemLiterals (toNodes es') := by
  induction h with
  | nil => rfl
  | cons e _ ih => simp [ih]
  | swap e e' es =>
    simp only [toNodes, Node.itemLiterals]
    abel
  | trans _ _ first hs => exact first.trans hs

theorem argumentName?_eq_none
    (h : ∀ ps, f ≠ .list (.leaf (.symbol "kw") :: ps)) : argumentName? f = none := by
  unfold argumentName?
  split
  · exact absurd rfl (h _)
  · rfl

@[simp] theorem ValidateParts.kept_empty (fs : List Form) : ({} : ValidateParts).kept fs = 0 := by
  simp [ValidateParts.kept]

mutual
theorem Expr.values_of_ofForm : ∀ (f : Form) {e : Expr}, Expr.ofForm f = .ok e →
    f.values = e.toNode.literals + Expr.lost f
  | f, e, h => by
    cases Expr.formed_of_ofForm h with
    | name => simp
    | @literal v hn =>
      cases v with
      | symbol n => exact absurd rfl (hn n)
      | _ => simp [values, leaves, Sexpr.Leaf.value?, Node.ofLeaf]
    | binary op left right hc =>
      have hr := Expr.values_of_chain _ hc
      have left := Expr.values_of_ofForm _ left
      have right := Expr.values_of_ofForm _ right
      rw [Expr.lost_of_operator op]
      simp at hr ⊢
      grind
    | attr hb named =>
      have none := lost_of_symbol named
      simp [none, Expr.values_of_ofForm _ hb]
    | index hb key =>
      simp [Expr.values_of_ofForm _ hb, Expr.values_of_ofForm _ key]
      abel
    | list hi | tuple hi =>
      simp [Expr.values_of_ofForms _ hi]
    | dict entries => simp [Expr.values_of_entries _ entries]
    | code => simp
    | validate hs hd =>
      simp [Expr.values_of_ofForm _ hs, Expr.values_of_ofForm _ hd]
      abel
    | labelled hm entries hma =>
      rw [ValidateParts.literals_toExpr hma]
      simpa [hm] using Expr.values_of_validateParts _ entries
    | parallel ht => simp [Expr.values_of_tasks _ ht]
    | call hf ha =>
      have all := Expr.values_of_arguments _ ha nodup_nil
      have hf := Expr.values_of_ofForm _ hf
      simp [keptOf, Expr.lostOfCall] at all ⊢
      grind
    | invoke hno hnoF ha =>
      rw [Expr.lost_of_invoke hno hnoF]
      simpa [keptOf, add_assoc] using
        Expr.values_of_arguments _ ha nodup_nil
    | apply hn hf ha =>
      have all := Expr.values_of_arguments _ ha nodup_nil
      have hf := Expr.values_of_ofForm _ hf
      rw [Expr.lost_of_apply hn]
      simp [keptOf] at all ⊢
      grind
termination_by f => sizeOf f
theorem Expr.values_of_ofForms : ∀ (fs : List Form) {es : List Expr}, ofForms fs = .ok es →
    valuesOfAll fs = Node.itemLiterals (toNodes es) + lostOfAll fs
  | [], es, h => by
    rw [ofForms] at h
    cases h
    simp
  | f :: fs, es, h => by
    rw [ofForms] at h
    obtain ⟨e, first, h⟩ := of_bind_ok h
    obtain ⟨rest, hm, ⟨⟩⟩ := of_bind_ok h
    simp [values_of_ofForm f first, values_of_ofForms fs hm]
    abel
termination_by fs => sizeOf fs
theorem Expr.values_of_chain : ∀ (fs : List Form) {op : String} {left e : Expr},
    chain op left fs = .ok e → left.toNode.literals + valuesOfAll fs = e.toNode.literals + lostOfAll fs
  | [], op, left, e, h => by
    rw [chain] at h
    cases h
    simp
  | f :: fs, op, left, e, h => by
    rw [chain] at h
    obtain ⟨right, first, h⟩ := of_bind_ok h
    have hr := values_of_chain fs h
    have first := values_of_ofForm f first
    simp at hr ⊢
    grind
termination_by fs => sizeOf fs
theorem Expr.values_of_entries : ∀ (fs : List Form) {es : List (Expr × Expr)}, Expr.entries fs = .ok es →
    valuesOfAll fs = Node.itemLiterals (Expr.entryNodes es) + Expr.lostOfEntries fs
  | fs, es, h => by
    unfold Expr.entries at h
    split at h
    next =>
      cases h
      simp [Expr.entryNodes]
    next key val fs =>
      simp only [except_bind_eq_ok_iff] at h
      obtain ⟨k, first, v, hs, rest, hm, ⟨⟩⟩ := h
      simp [Expr.entryNodes, Expr.values_of_ofForm key first, Expr.values_of_ofForm val hs,
        Expr.values_of_entries fs hm]
      abel
    next => cases h
termination_by fs => sizeOf fs
theorem Expr.values_of_tasks : ∀ (fs : List Form) {ts : List (String × Expr)}, Expr.tasks fs = .ok ts →
    valuesOfAll fs = Node.itemLiterals (Expr.taskNodes ts) + Expr.lostOfEntries fs
  | fs, es, h => by
    unfold Expr.tasks at h
    split at h
    next =>
      cases h
      simp [Expr.taskNodes]
    next lb v fs =>
      simp only [except_bind_eq_ok_iff] at h
      obtain ⟨n, named, e, first, rest, hm, ⟨⟩⟩ := h
      have none := lost_of_symbol named
      simp [Expr.taskNodes, none, Expr.values_of_ofForm v first, Expr.values_of_tasks fs hm]
      abel
    next => cases h
termination_by fs => sizeOf fs
theorem Expr.values_of_validateParts : ∀ (fs : List Form) {ps all : ValidateParts},
    Expr.validateParts ps fs = .ok all →
    ps.kept fs + valuesOfAll fs = all.kept [] + Expr.lostOfParts fs
  | fs, ps, all, h => by
    unfold Expr.validateParts at h
    split at h
    next =>
      cases h
      simp [Expr.lostOfParts]
    next lb v fs =>
      obtain ⟨key, named, h⟩ := of_bind_ok h
      rw [eq_of_symbol named]
      simp only [ite_eq_iff, and_false, or_false, reduceCtorEq] at h
      obtain ⟨is, h⟩ | ⟨-, ⟨is, h⟩ | ⟨-, is, h⟩⟩ := h
      all_goals
        obtain ⟨e, hr, h⟩ := of_bind_ok h
        have hre := Expr.values_of_validateParts fs h
        have hp (name : String) := kept_add_lost (Expr.values_of_ofForm v hr)
          (gives entryPart? (some name) fs)
        simp [eq_of_beq is, ValidateParts.kept, entryPart?, partOf?, get?,
          Expr.lostOfParts] at hre hp ⊢
        grind
    next => cases h
termination_by fs => sizeOf fs
theorem Expr.values_of_arguments : ∀ (fs : List Form) {args args' : List Expr}
    {named named' : Entries Expr}, Expr.arguments args named fs = .ok (args', named') →
    named.names.Nodup → Node.itemLiterals (Expr.toNodes args) +
      keptOf (fun k => gives argumentName? (some k) fs) named + valuesOfAll fs =
    Node.itemLiterals (Expr.toNodes args') + Node.memberLiterals (Expr.namedNodes named') +
      Expr.lostOfArguments fs
  | fs, args, args', named, named', h, hd => by
    unfold Expr.arguments at h
    split at h
    next =>
      cases h
      simp [keptOf, gives, Expr.lostOfArguments, Expr.itemLiterals_perm (reverse_perm args)]
    next ps fs =>
      split at h
      · next key val =>
        obtain ⟨v, hr, h⟩ := of_bind_ok h
        obtain ⟨k, hn, h⟩ := of_bind_ok h
        have hre := Expr.values_of_arguments fs h (nodup_names_put hd k v)
        have hpa := kept_add_lost (Expr.values_of_ofForm val hr) (gives argumentName? (some k) fs)
        rw [keptOf_put _ _ _ hd] at hre
        rw [eq_of_symbol hn]
        simp [argumentName?, Expr.lostOfArguments]
        grind
      · cases h
    next f fs hp =>
      obtain ⟨e, hr, h⟩ := of_bind_ok h
      have hre := Expr.values_of_arguments fs h hd
      have first := Expr.values_of_ofForm f hr
      simp [argumentName?_eq_none hp] at hre ⊢
      rw [Expr.lostOfArguments]
      · grind
      · exact fun key val hs => hp _ hs
termination_by fs => sizeOf fs
end

/-! ## Statements -/

variable {args : List Form} {cs : List Context}

theorem values_of_allTexts {complaint : FormError} {ts : List String}
    (h : allTexts complaint args = .ok ts) :
    valuesOfAll args = ↑(ts.map Node.str) + Expr.lostOfAll args := by
  induction args generalizing ts with
  | nil =>
    cases h
    simp
  | cons f fs ih =>
    unfold allTexts at h
    split at h
    · cases h
    · next s hi =>
      obtain ⟨rest, hm, rfl⟩ := except_map_eq_ok h
      unfold text? at hi
      split at hi
      · cases hi
        simp [ih hm, ← Multiset.cons_coe]
      · cases hi

@[simp] theorem Context.literalsUnder (key : String) (c : Context) :
    c.toNode.literalsUnder key = c.value.toNode.literals := by
  unfold Context.toNode
  split <;> simp

theorem Context.values_of_ofForms {item : List Form} {c : Context} (h : Context.ofForms item = .ok c) :
    valuesOfAll item = c.value.toNode.literals + Expr.lostAfter 2 item := by
  unfold Context.ofForms at h
  split at h
  · cases h
  · obtain ⟨v, hv, ⟨⟩⟩ := of_bind_ok h
    simp [Expr.values_of_ofForm _ hv]
  · obtain ⟨v, hv, h⟩ := of_bind_ok h
    obtain ⟨n, named, ⟨⟩⟩ := of_bind_ok h
    have none := lost_of_symbol named
    simp [none, Expr.values_of_ofForm _ hv, add_assoc]

theorem Context.values_of_ofList {fs : List Form} (h : Context.ofList fs = .ok cs) :
    valuesOfAll fs = Node.itemLiterals (cs.map Context.toNode) + Context.lostOfList fs := by
  induction fs generalizing cs with
  | nil =>
    cases h
    simp [Context.lostOfList]
  | cons f fs ih =>
    cases f with
    | leaf v => cases h
    | list item =>
      obtain ⟨c, first, h⟩ := of_bind_ok h
      obtain ⟨rest, hm, ⟨⟩⟩ := of_bind_ok h
      simp [Context.lostOfList, Context.values_of_ofForms first, ih hm]
      abel

theorem Context.values_of_ofForm (h : Context.ofForm f = .ok cs) :
    f.values = Node.itemLiterals (cs.map Context.toNode) + Context.lost f := by
  unfold Context.ofForm at h
  split at h
  · exact Context.values_of_ofList h
  · next f fs hn =>
    obtain ⟨c, hr, ⟨⟩⟩ := of_bind_ok h
    rw [Context.lost]
    · simpa using Context.values_of_ofForms hr
    · rintro item _ ⟨⟩
      exact hn item rfl
  · cases h

theorem Stmt.lost_of_eval (hn : ∀ word args,
    f = .list (.leaf (.symbol word) :: args) → word ∉ stmtWords) : Stmt.lost f = Expr.lost f := by
  unfold Stmt.lost
  split
  · exact absurd (by decide) (hn "if" _ rfl)
  · exact absurd (by decide) (hn "for" _ rfl)
  · exact absurd (by decide) (hn "while" _ rfl)
  · exact absurd (by decide) (hn "with" _ rfl)
  · next head args _ _ _ _ =>
    have ho := hn head args rfl
    simp_all [stmtWords]
  · rfl

mutual
theorem Stmt.values_of_ofForm : ∀ (f : Form) {s : Stmt}, Stmt.ofForm f = .ok s →
    f.values = s.toNode.literals + Stmt.lost f
  | f, s, h => by
    cases Stmt.formed_of_ofForm h with
    | leave | next | rethrow => simp
    | code ht => simpa [Node.ofTexts] using values_of_allTexts ht
    | assign hv | ret hv | expr hv | throw hv =>
      simp [Expr.values_of_ofForm _ hv]
    | check hc =>
      simp [Expr.values_of_ofForm _ hc]
    | checkTold hc hm =>
      simp [Expr.values_of_ofForm _ hc, Expr.values_of_ofForm _ hm]
      abel
    | branch hc hp =>
      have hp := Stmt.values_of_branches _ hp
      simp [Expr.values_of_ofForm _ hc] at hp ⊢
      grind
    | forEach first hb | loop first hb =>
      simp [Expr.values_of_ofForm _ first, Stmt.values_of_ofForms _ hb]
      abel
    | withContexts hi hb =>
      simp [Context.values_of_ofForm hi, Stmt.values_of_ofForms _ hb]
      abel
    | eval hn hv =>
      rw [Stmt.lost_of_eval hn]
      simp [Expr.values_of_ofForm _ hv]
termination_by f => sizeOf f
theorem Stmt.values_of_ofForms : ∀ (fs : List Form) {ss : List Stmt}, Stmt.ofForms fs = .ok ss →
    valuesOfAll fs = Node.itemLiterals (Stmt.toNodes ss) + Stmt.lostOfAll fs
  | [], ss, h => by
    rw [Stmt.ofForms] at h
    cases h
    simp [Stmt.lostOfAll]
  | f :: fs, ss, h => by
    rw [Stmt.ofForms] at h
    obtain ⟨s, first, h⟩ := of_bind_ok h
    obtain ⟨rest, hm, ⟨⟩⟩ := of_bind_ok h
    simp [Stmt.lostOfAll, Stmt.values_of_ofForm f first, Stmt.values_of_ofForms fs hm]
    abel
termination_by fs => sizeOf fs
theorem Stmt.values_of_branches : ∀ (fs : List Form) {t e t' e' : List Stmt},
    Stmt.branches t e fs = .ok (t', e') →
    (if gives branchPart? (some "then") fs then 0 else Node.itemLiterals (Stmt.toNodes t)) +
      (if gives branchPart? (some "else") fs then 0 else Node.itemLiterals (Stmt.toNodes e)) +
      valuesOfAll fs =
    Node.itemLiterals (Stmt.toNodes t') + Node.itemLiterals (Stmt.toNodes e') +
      Stmt.lostOfBranches fs
  | fs, t, e, t', e', h => by
    unfold Stmt.branches at h
    split at h
    next =>
      cases h
      simp [gives, Stmt.lostOfBranches]
    next tag body fs =>
      obtain ⟨word, named, h⟩ := of_bind_ok h
      rw [eq_of_symbol named]
      simp only [ite_eq_iff, and_false, or_false, reduceCtorEq] at h
      obtain ⟨is, h⟩ | ⟨-, is, h⟩ := h
      all_goals
        obtain ⟨b, hr, h⟩ := of_bind_ok h
        have hre := Stmt.values_of_branches fs h
        have hp (name : String) := kept_add_lost (Stmt.values_of_ofForms body hr)
          (gives branchPart? (some name) fs)
        simp [branchPart?, partOf?, get?, Stmt.lostOfBranches] at is hre hp ⊢
      · rcases is with rfl | rfl <;> simp <;> grind
      · grind
    next => cases h
termination_by fs => sizeOf fs
end

/-- The values of a form that is read are those that the document keeps and those that are lost. -/
theorem values_of_read (f : Form) :
    (∀ e, Expr.ofForm f = .ok e → f.values = e.toNode.literals + Expr.lost f) ∧
    ∀ s, Stmt.ofForm f = .ok s → f.values = s.toNode.literals + Stmt.lost f :=
  ⟨fun _ => Expr.values_of_ofForm f, fun _ => Stmt.values_of_ofForm f⟩

/-- A loop with an argument that is given twice, and with an alternative: `(while (go (kw n 1)
(kw n 2)) (do) (else (return "x")))`. -/
def goWhile : Form :=
  .list [.leaf (.symbol "while"),
    .list [.leaf (.symbol "go"), .list [.leaf (.symbol "kw"), .leaf (.symbol "n"), .leaf (.int 1)],
      .list [.leaf (.symbol "kw"), .leaf (.symbol "n"), .leaf (.int 2)]],
    .list [.leaf (.symbol "do")],
    .list [.leaf (.symbol "else"), .list [.leaf (.symbol "return"), .leaf (.str "x")]]]

theorem values_of_goWhile :
    Stmt.ofForm goWhile = .ok (.loop (.invoke "go" [] [("n", .literal (.int 2))]) []) ∧
    goWhile.values =
      (Stmt.loop (.invoke "go" [] [("n", .literal (.int 2))]) []).toNode.literals +
        Stmt.lost goWhile ∧
    Stmt.lost goWhile = {.int 1, .str "x"} :=
  ⟨by cbv, (values_of_read goWhile).2 _ (by cbv), by cbv⟩

/-- The text in the alternative of a loop is in no part of the document. -/
theorem alternative_of_while_lost :
    Stmt.ofForm goWhile = .ok (.loop (.invoke "go" [] [("n", .literal (.int 2))]) []) ∧
    Node.str "x" ∈ goWhile.values ∧
    Node.str "x" ∉ (Stmt.loop (.invoke "go" [] [("n", .literal (.int 2))]) []).toNode.literals := by
  refine ⟨by cbv, by simp [goWhile], ?_⟩
  simp [Stmt.toNode, Expr.toNode, Expr.toNodes, Expr.namedNodes, Stmt.toNodes, Node.ofLeaf]

/-! ## Labelled entries -/

def labelled (word : String) (f : Form) : Form :=
  .list [.leaf (.symbol word), f]

def validateForm (entries : List Form) : Form :=
  .list (.leaf (.symbol "validate") :: entries)

def ValidateParts.give (parts : ValidateParts) (word : String) (e : Expr) : ValidateParts :=
  if word = "data" then { parts with data := some e }
  else { parts with schema := some e, isModel := word == "model" }

def Expr.validation (word : String) (a b : Expr) : Expr :=
  if word = "model" then .validateModel a b else .validateSchema a b

def IsEntry (f : Form) : Prop :=
  ∃ word ∈ ["schema", "model", "data"], ∃ g e, f = labelled word g ∧ Expr.ofForm g = .ok e

variable {x y : Form} {a b e : Expr} {word w : String} {entries : List Form}

theorem Expr.validateParts_labelled (hk : word ∈ ["schema", "model", "data"])
    (h : ofForm x = .ok a) (ps : ValidateParts) (fs : List Form) :
    validateParts ps (labelled word x :: fs) = Expr.validateParts (ps.give word a) fs := by
  fin_cases hk <;> simp [labelled, validateParts, symbol, ValidateParts.give, h, bind, Except.bind]

theorem Expr.exists_validateParts {pre : List Form} (entries : ∀ f ∈ pre, IsEntry f)
    (ps : ValidateParts) (fs : List Form) : ∃ inp, validateParts ps (pre ++ fs) = validateParts inp fs := by
  induction pre generalizing ps with
  | nil => exact ⟨ps, rfl⟩
  | cons f pre ih =>
    obtain ⟨⟨word, hk, g, e, rfl, hr⟩, hl⟩ := forall_mem_cons.1 entries
    rw [cons_append, validateParts_labelled hk hr]
    exact ih hl _

theorem Expr.call_of_ofForm {args : List Form} (plain : word ∉ binaryOperators ++ exprWords)
    (h : ofForm (.list (.leaf (.symbol word) :: args)) = .ok e) :
    ∃ es named, arguments [] [] args = .ok (es, named) ∧ e = .invoke word es named := by
  cases formed_of_ofForm h with
  | invoke _ _ arguments => exact ⟨_, _, arguments, rfl⟩
  | binary op => exact absurd (mem_append_left _ (contains_iff_mem.1 op)) plain
  | apply noSymbol => exact absurd rfl (noSymbol word)
  | _ => exact absurd (by decide) plain

theorem Expr.call_of_labelled (known : word ∈ ["schema", "model", "data"])
    (h : ofForm (labelled word x) = .ok e) (read : ofForm x = .ok a) :
    ∃ es named, e = .invoke word es named ∧ (es = [a] ∨ ∃ es named, a = .invoke "kw" es named) := by
  have plain : ∀ w ∈ ["schema", "model", "data"], w ∉ binaryOperators ++ exprWords := by decide
  obtain ⟨es, named, arguments, rfl⟩ := call_of_ofForm (plain word known) h
  refine ⟨es, named, rfl, ?_⟩
  unfold Expr.arguments at arguments
  split at arguments
  · next none => cases none
  · next parts fs same =>
    cases same
    obtain ⟨es, named, -, call⟩ := call_of_ofForm (by decide) read
    exact .inr ⟨es, named, call⟩
  · next f fs _ same =>
    cases same
    rw [read] at arguments
    cases arguments
    exact .inl rfl

theorem Expr.sizeOf_lt_of_call (word : String)
    (named : Entries Expr) {named' : Entries Expr}
    (ha : es = [a] ∨ ∃ es named, a = .invoke "kw" es named) (ho : w ≠ "kw")
    (hs : (invoke w es' named').toNode = a.toNode) :
    sizeOf a.toNode < sizeOf (invoke word es named).toNode := by
  rcases ha with rfl | ⟨es, named, rfl⟩
  · simp only [toNode, toNodes, Node.obj.sizeOf_spec, Node.list.sizeOf_spec,
      cons.sizeOf_spec, Prod.mk.sizeOf_spec]
    omega
  · simp only [toNode, Node.obj.injEq, cons.injEq, Prod.mk.injEq, Node.str.injEq] at hs
    exact absurd hs.1.2 ho

theorem Expr.parts_of_validation {s d : Expr}
    (hs : (validateSchema s d).toNode = (validation w a b).toNode) :
    s.toNode = a.toNode ∧ d.toNode = b.toNode := by
  unfold validation at hs
  split at hs
  · simp [toNode] at hs
  · simpa [toNode] using hs

theorem Expr.ofForm_validate_pair (x y : Form) : ofForm (validateForm [x, y]) = (do
    let s ← ofForm x
    let d ← ofForm y
    return .validateSchema s d) := by
  simp [validateForm, ofForm, binaryOperators]

theorem Expr.ofForm_validate_entries (hm : entries.length ≠ 2) : ofForm (validateForm entries) = (do
      let ps ← validateParts {} entries
      ps.toExpr) := by
  rcases entries with _ | ⟨x, _ | ⟨y, _ | ⟨z, more⟩⟩⟩
  case cons.cons.nil => exact absurd rfl hm
  all_goals simp [validateForm, ofForm, binaryOperators]

/-- Two calls of labels validate something else than the labelled parts. The sizes decide it: each
call holds the document of its argument. -/
theorem Expr.validateSchema_ne_validation (hk : word ∈ ["schema", "model"])
    (hsc : ofForm x = .ok a) (hd : ofForm y = .ok b)
    (ho : entries.Perm [labelled word x, labelled "data" y])
    (h : ofForm (validateForm entries) = .ok e) :
    (∃ w w' es es' named named', [w, w'].Perm [word, "data"] ∧
      e = .validateSchema (.invoke w es named) (.invoke w' es' named')) ∧
    ∀ w, e.toNode ≠ (validation w a b).toNode := by
  have hla : word ∈ ["schema", "model", "data"] := mem_append_left ["data"] hk
  have hn : word ≠ "kw" := by
    rintro rfl
    revert hk
    decide
  obtain ⟨p, q, rfl⟩ := length_eq_two.1 ho.length_eq
  rw [ofForm_validate_pair] at h
  obtain ⟨s, first, h⟩ := of_bind_ok h
  obtain ⟨d, hse, ⟨⟩⟩ := of_bind_ok h
  rcases perm_pair.1 ho with hsa | hsa <;> cases hsa
  · obtain ⟨es, named, rfl, hs⟩ := call_of_labelled hla first hsc
    obtain ⟨es', named', rfl, -⟩ := call_of_labelled (by decide) hse hd
    refine ⟨⟨_, _, es, es', named, named', .refl _, rfl⟩, fun w hsa => ?_⟩
    have hi := (parts_of_validation hsa).1
    have hl := sizeOf_lt_of_call word named hs hn hi
    rw [hi] at hl
    exact lt_irrefl _ hl
  · obtain ⟨es, named, rfl, hs⟩ := call_of_labelled (by decide) first hd
    obtain ⟨es', named', rfl, hs'⟩ := call_of_labelled hla hse hsc
    refine ⟨⟨_, _, es, es', named, named', .swap _ _ _, rfl⟩, fun w hsa => ?_⟩
    obtain ⟨left, right⟩ := parts_of_validation hsa
    have hi := sizeOf_lt_of_call "data" named hs hn right
    have hou := sizeOf_lt_of_call word named' hs' (by decide) left
    rw [left] at hi
    rw [right] at hou
    exact lt_asymm hi hou

/-- Two labelled entries alone are taken for calls, in either order, and so the form is not what it
says: neither the validation of the two parts nor what it would be without labels. With any further
entry before them the labels count. -/
theorem labels_of_validate (schema : Expr.ofForm x = .ok a) (data : Expr.ofForm y = .ok b)
    (known : word ∈ ["schema", "model"]) :
    Expr.ofForm (validateForm [x, y]) = .ok (.validateSchema a b) ∧
    ∀ entries, entries.Perm [labelled word x, labelled "data" y] →
      (∀ e, Expr.ofForm (validateForm entries) = .ok e →
        (∃ w w' es es' named named', [w, w'].Perm [word, "data"] ∧
          e = .validateSchema (.invoke w es named) (.invoke w' es' named')) ∧
        ∀ w, e.toNode ≠ (Expr.validation w a b).toNode) ∧
      ∀ before, before ≠ [] → (∀ f ∈ before, IsEntry f) →
        Expr.ofForm (validateForm (before ++ entries)) = .ok (.validation word a b) := by
  refine ⟨?_, fun entries order => ⟨fun e h =>
    Expr.validateSchema_ne_validation known schema data order h, fun before some read => ?_⟩⟩
  · rw [Expr.ofForm_validate_pair, schema, data]
    rfl
  · have many : (before ++ entries).length ≠ 2 := by
      have := List.length_pos_of_ne_nil some
      rw [List.length_append, order.length_eq]
      simp only [List.length_cons, List.length_nil]
      omega
    rw [Expr.ofForm_validate_entries many]
    obtain ⟨given, same⟩ := Expr.exists_validateParts read {} entries
    rw [same]
    have label : word ∈ ["schema", "model", "data"] := List.mem_append_left ["data"] known
    simp only [List.mem_cons, List.not_mem_nil, or_false] at known
    rcases List.perm_pair.mp order with rfl | rfl
    · rw [Expr.validateParts_labelled label schema, Expr.validateParts_labelled (by decide) data]
      rcases known with rfl | rfl <;> rfl
    · rw [Expr.validateParts_labelled (by decide) data, Expr.validateParts_labelled label schema]
      rcases known with rfl | rfl <;> rfl

theorem labels_of_named_parts :
    Expr.ofForm (validateForm [.leaf (.symbol "S"), .leaf (.symbol "d")]) =
      .ok (.validateSchema (.name "S") (.name "d")) ∧
    Expr.ofForm (validateForm [labelled "data" (.leaf (.symbol "c")),
      labelled "model" (.leaf (.symbol "S")), labelled "data" (.leaf (.symbol "d"))]) =
      .ok (.validateModel (.name "S") (.name "d")) :=
  have all := labels_of_validate (rfl : Expr.ofForm (.leaf (.symbol "S")) = .ok (.name "S"))
    (rfl : Expr.ofForm (.leaf (.symbol "d")) = .ok (.name "d"))
    (by decide : "model" ∈ ["schema", "model"])
  ⟨all.1, (all.2 _ (.refl _)).2 [_] (by simp) (by
    rw [List.forall_mem_singleton]
    exact ⟨"data", by decide, _, .name "c", rfl, rfl⟩)⟩

/-- Labels in front of a schema and data change what is validated. -/
theorem labels_taken_for_calls :
    Expr.ofForm (validateForm [labelled "schema" (.leaf (.symbol "S")),
      labelled "data" (.leaf (.symbol "d"))]) =
      .ok (.validateSchema (.invoke "schema" [.name "S"] []) (.invoke "data" [.name "d"] [])) ∧
    (Expr.validateSchema (.invoke "schema" [.name "S"] []) (.invoke "data" [.name "d"] [])).toNode ≠
      (Expr.validateSchema (.name "S") (.name "d")).toNode :=
  ⟨by cbv, by simp [Expr.toNode]⟩

end Program

end Appwright
