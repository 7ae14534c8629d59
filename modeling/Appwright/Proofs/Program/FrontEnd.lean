import Appwright.Proofs.Program.Parsing
import Mathlib.Data.List.Duplicate

/-!
# Checking and compiling programs that were read

The reader makes documents that can fail the check for six reasons only, each of which can be read
off the program: an import that is neither a symbol nor a text, a name of an input, of a step or of
a parameter that is no identifier, a step name that is used twice, and a step that does nothing.
A program without such a flaw passes, and its source can be generated.
-/

namespace Appwright

open List Entries Text Option

namespace Program

open Sexpr (Leaf)

variable {Known : String → Prop} {α : Type} {f : α → Node} {es : Entries Node}

/-! ## Flaws -/

/-- A letter or an underscore, and then letters, digits and underscores. -/
def IsIdentifier (name : String) : Prop :=
  isIdentChars name.toList = true

def Import.IsNamed : Import → Prop
  | .plain f => f.symbol? ≠ none ∨ f.text? ≠ none
  | _ => True

def Step.parameters (s : Step) : List String :=
  match get? "params" s.properties with
  | some (.params names) => names
  | _ => []

def Step.IsEmpty (s : Step) : Prop :=
  get? "body" s.properties = none ∧ get? "return" s.properties = none

/-- What can be wrong with one of some steps, among steps with these names. -/
inductive Step.Flaw (names : List String) (steps : List Step) : CheckError → Prop
  | name {s : Step} (mem : s ∈ steps) (bad : ¬ IsIdentifier s.name) : Step.Flaw names steps .stepName
  | duplicate {s : Step} (mem : s ∈ steps) (twice : Duplicate s.name names) :
    Step.Flaw names steps (.duplicateStep s.name)
  | parameter {s : Step} {p : String} (mem : s ∈ steps) (param : p ∈ s.parameters)
    (bad : ¬ IsIdentifier p) : Step.Flaw names steps .paramNames
  | empty {s : Step} (mem : s ∈ steps) (empty : s.IsEmpty) : Step.Flaw names steps (.stepEmpty s.name)

/-- What can be wrong with a program that was read, with the complaint about it. -/
inductive Tree.Flaw (tree : Tree) : CheckError → Prop
  | module {i : Import} (mem : i ∈ tree.imports) (unnamed : ¬ i.IsNamed) : Tree.Flaw tree .importKind
  | input {name : String} (mem : name ∈ tree.inputs.names) (bad : ¬ IsIdentifier name) :
    Tree.Flaw tree (.inputName name)
  | step {e : CheckError} (flaw : Step.Flaw (tree.steps.map Step.name) tree.steps e) :
    Tree.Flaw tree e

/-! ## Parts of the check -/

attribute [local simp] bind Except.bind pure Except.pure Entries.get? Node.child? Node.bodyOf
  Property.toNode

theorem isIdentLine_iff {name : String} (hu : ∀ c ∈ name.toList, Sexpr.endsWord c = false) :
    isIdentLine name ↔ IsIdentifier name := by
  have hl : ¬ name.toList.getLast? = some '\n' := by
    intro he
    have hi := hu '\n' (mem_of_getLast? he)
    exact absurd hi (by decide)
  simp [isIdentLine, IsIdentifier, hl]

theorem require_eq_ok_iff {ok : Bool} {complaint : CheckError} :
    require ok complaint = .ok () ↔ ok := by
  cases ok
  · exact ⟨nofun, nofun⟩
  · exact ⟨fun _ => rfl, fun _ => rfl⟩

theorem eq_of_require {ok : Bool} {complaint e : CheckError}
    (h : require ok complaint = .error e) : ok = false ∧ e = complaint := by
  cases ok with
  | true => cases h
  | false =>
    cases h
    exact ⟨rfl, rfl⟩

theorem eq_ok_or_eq_error (x : Checked) : x = .ok () ∨ ∃ e, x = .error e := by
  cases x with
  | ok u => exact .inl rfl
  | error e => exact .inr ⟨e, rfl⟩

theorem checkEach_map_eq_ok_iff {check : Node → Checked} {xs : List α} :
    checkEach check (xs.map f) = .ok () ↔ ∀ x ∈ xs, check (f x) = .ok () := by
  induction xs with
  | nil => simp [checkEach]
  | cons x xs ih =>
    rw [map_cons, checkEach, forall_mem_cons, ← ih]
    cases check (f x) with
    | ok u => exact ⟨fun h => ⟨rfl, h⟩, And.right⟩
    | error e => exact ⟨nofun, nofun⟩

variable {e : CheckError} {s : Step} {key : String} {seen : List String} {tree : Tree}

theorem exists_of_checkEach_map {check : Node → Checked} {xs : List α}
    (h : checkEach check (xs.map f) = .error e) : ∃ x ∈ xs, check (f x) = .error e := by
  induction xs with
  | nil => cases h
  | cons x xs ih =>
    rw [map_cons, checkEach] at h
    cases first : check (f x) with
    | error e' =>
      rw [first] at h
      cases h
      exact ⟨x, mem_cons_self, first⟩
    | ok u =>
      rw [first] at h
      obtain ⟨y, hy, hf⟩ := ih h
      exact ⟨y, mem_cons_of_mem x hy, hf⟩

theorem checkImport_toNode (i : Import) : (i.IsNamed → checkImport i.toNode = .ok ()) ∧
      (¬ i.IsNamed → checkImport i.toNode = .error .importKind) := by
  cases i with
  | renamed module lb =>
    exact ⟨fun _ => rfl, fun h => absurd trivial h⟩
  | selected module ns =>
    refine ⟨fun _ => ?_, fun h => absurd trivial h⟩
    simp [Import.toNode, checkImport, Node.ofTexts, Node.isText, require]
  | plain f =>
    cases f with
    | list xs =>
      refine ⟨fun h => ?_, fun _ => rfl⟩
      simp [Import.IsNamed, Form.symbol?, Form.text?] at h
    | leaf v =>
      cases v with
      | symbol name => exact ⟨fun _ => rfl, fun h => absurd (.inl (some_ne_none _)) h⟩
      | str s => exact ⟨fun _ => rfl, fun h => absurd (.inr (some_ne_none _)) h⟩
      | int _ | float _ | bool _ | null =>
        refine ⟨fun h => ?_, fun _ => rfl⟩
        simp [Import.IsNamed, Form.symbol?, Form.text?] at h

theorem checkInputNames_eq_ok_iff :
    checkInputNames es = .ok () ↔ ∀ name ∈ es.names, isIdentLine name := by
  induction es with
  | nil => simp [checkInputNames, names]
  | cons e es ih =>
    obtain ⟨k, v⟩ := e
    rw [names, map_cons, forall_mem_cons, checkInputNames]
    by_cases hn : isIdentLine k
    · rw [require_eq_ok_iff.2 hn]
      exact ih.trans ⟨fun h => ⟨hn, h⟩, And.right⟩
    · rw [Bool.eq_false_iff.2 hn]
      refine ⟨fun h => ?_, fun h => absurd h.1 Bool.false_ne_true⟩
      cases h

theorem exists_of_checkInputNames (h : checkInputNames es = .error e) :
    ∃ name ∈ es.names, isIdentLine name ≠ true ∧ e = .inputName name := by
  induction es with
  | nil => cases h
  | cons d es ih =>
    obtain ⟨k, v⟩ := d
    rw [checkInputNames] at h
    by_cases hn : isIdentLine k
    · rw [require_eq_ok_iff.2 hn] at h
      obtain ⟨name, mem, bad, rfl⟩ := ih h
      exact ⟨name, mem_cons_of_mem k mem, bad, rfl⟩
    · rw [Bool.eq_false_iff.2 hn] at h
      cases h
      exact ⟨k, mem_cons_self, hn, rfl⟩

/-! ## Steps -/

def Step.members (s : Step) : Entries Node :=
  ("name", .str s.name) :: mapValues Property.toNode s.properties

theorem Step.toNode_eq (s : Step) : s.toNode = .obj s.members := rfl

theorem Step.get?_members (ho : key ≠ "name") (s : Step) :
    get? key s.members = (get? key s.properties).map Property.toNode := by
  rw [Step.members, get?, if_neg (by simpa using ho.symm), get?_mapValues]

variable {p : Property} {ss : List Step}

theorem Step.Fits.property (hf : s.Fits Known) (h : get? key s.properties = some p) : p.Fits Known key :=
  hf.properties (key, p) (mem_of_get? h)

theorem Property.Fits.eq_params (h : p.Fits Known "params") : ∃ ns, p = .params ns ∧ ∀ n ∈ ns, Known n := by
  cases p with
  | params ns => exact ⟨ns, rfl, h.2⟩
  | number | guard | produces | ret => simp [Property.Fits] at h
  | body b => cases b <;> simp [Property.Fits] at h

theorem Property.Fits.eq_body (h : p.Fits Known "body") :
    (∃ lines, p = .body (.lines lines)) ∨ ∃ b, p = .body (.block b) ∧ Stmt.AllHaveContexts b := by
  cases p with
  | params | number | guard | produces | ret => simp [Property.Fits] at h
  | body b =>
    cases b with
    | lines lines => exact .inl ⟨lines, rfl⟩
    | block b => exact .inr ⟨b, rfl, h.2⟩

theorem Property.Fits.eq_ret (h : p.Fits Known "return") : ∃ v, p = .ret v := by
  cases p with
  | params | number | guard | produces => simp [Property.Fits] at h
  | body b => cases b <;> simp [Property.Fits] at h
  | ret v => exact ⟨v, rfl⟩

theorem Property.Fits.isTexts (h : p.Fits Known "guard") : p.toNode.isTexts := by
  cases p with
  | params | number | produces | ret => simp [Property.Fits] at h
  | body b => cases b <;> simp [Property.Fits] at h
  | guard ts => simp [Node.ofTexts, Node.isTexts, Node.isText]

theorem Property.Fits.isWhole (number : key = "retry" ∨ key = "timeout") (h : p.Fits Known key) :
    p.toNode.isWhole := by
  cases p with
  | number v => exact h.2
  | params | guard | produces | ret => rcases number with rfl | rfl <;> simp [Property.Fits] at h
  | body b => cases b <;> rcases number with rfl | rfl <;> simp [Property.Fits] at h

theorem mapM_text?_map_str (ts : List String) : (ts.map Node.str).mapM Node.text? = some ts := by
  induction ts with
  | nil => rfl
  | cons s ts ih =>
    rw [map_cons, mapM_cons, ih]
    rfl

theorem checkParams_step (hfi : s.Fits Known) : checkParams ((get? "params" s.members).getD (.list [])) =
      require (s.parameters.all isIdentLine) .paramNames := by
  rw [Step.get?_members (by decide), Step.parameters]
  cases hf : get? "params" s.properties with
  | none => rfl
  | some p =>
    obtain ⟨ns, rfl, -⟩ := (hfi.property hf).eq_params
    simp only [map_some, getD_some, Property.toNode, Node.ofTexts, checkParams,
      mapM_text?_map_str]

theorem known_of_mem_parameters (hfi : s.Fits Known) {p : String} (h : p ∈ s.parameters) : Known p := by
  unfold Step.parameters at h
  split at h
  · next ns hf => exact (hfi.property hf).2 p h
  · exact absurd h not_mem_nil

theorem checkBody_toNode (hf : p.Fits Known "body") (name : String) : checkBody name p.toNode = .ok () := by
  rcases hf.eq_body with ⟨ls, rfl⟩ | ⟨b, rfl, hc⟩
  · simp [Node.ofTexts, checkBody, Node.codeOr, Node.isTexts, Node.isText, require]
  · simp [checkBody, Node.codeOr, checkStmts_toNodes b hc]

theorem checkStepName_members (s : Step) (seen : List String) : checkStepName seen s.members =
      if !isIdentLine s.name then .error .stepName
      else if seen.contains s.name then .error (.duplicateStep s.name)
      else .ok s.name := rfl

theorem checkMember_members (hfi : s.Fits Known) (ho : key ≠ "name") {check : Node → Checked}
    (hp : ∀ p : Property, p.Fits Known key → check p.toNode = .ok ()) :
    checkMember key check s.members = .ok () := by
  rw [checkMember, Step.get?_members ho]
  cases hf : get? key s.properties with
  | none => rfl
  | some p => exact hp p (hfi.property hf)

theorem Step.has_members (ho : key ≠ "name") (s : Step) : has key s.members = has key s.properties := by
  rw [has, has, Step.get?_members ho, isSome_map]

theorem checkStep_toNode (hf : s.Fits Known) (seen : List String) : checkStep seen s.toNode = (do
      let name ← checkStepName seen s.members
      require (s.parameters.all isIdentLine) .paramNames
      require (has "body" s.properties || has "return" s.properties) (.stepEmpty name)
      return name) := by
  have hb (name : String) : checkMember "body" (checkBody name) s.members = .ok () :=
    checkMember_members hf (by decide) fun p hp => checkBody_toNode hp name
  have hg (name : String) : checkKind "guard" Node.isTexts (.guardKind name) s.members = .ok () :=
    checkMember_members hf (by decide) fun p hp => require_eq_ok_iff.2 hp.isTexts
  have hr (name : String) : checkKind "retry" Node.isWhole (.retryKind name) s.members = .ok () :=
    checkMember_members hf (by decide) fun p hp => require_eq_ok_iff.2 (hp.isWhole (.inl rfl))
  have ht (name : String) : checkKind "timeout" Node.isWhole (.timeoutKind name) s.members = .ok () :=
    checkMember_members hf (by decide) fun p hp => require_eq_ok_iff.2 (hp.isWhole (.inr rfl))
  rw [Step.toNode_eq, checkStep, checkParams_step hf, Step.has_members (by decide),
    Step.has_members (by decide)]
  simp only [hb, hg, hr, ht, bind, Except.bind]

/-- A step that passes the check has no flaw, and its name is new. -/
theorem of_checkStep_eq_ok (hf : s.Fits Known) {name : String} (h : checkStep seen s.toNode = .ok name) :
    name = s.name ∧ isIdentLine s.name ∧ s.name ∉ seen ∧
      s.parameters.all isIdentLine ∧ ¬ s.IsEmpty := by
  rw [checkStep_toNode hf] at h
  simp only [except_bind_eq_ok_iff] at h
  obtain ⟨n, hn, ⟨⟩, hp, ⟨⟩, hfu, ⟨⟩⟩ := h
  rw [checkStepName_members] at hn
  obtain ⟨-, ⟨⟩⟩ | ⟨hi, hn⟩ := ite_eq_iff.1 hn
  obtain ⟨-, ⟨⟩⟩ | ⟨new, ⟨⟩⟩ := ite_eq_iff.1 hn
  refine ⟨rfl, by simpa using hi, by simpa using new, require_eq_ok_iff.1 hp, ?_⟩
  rintro ⟨hb, ret⟩
  have some := require_eq_ok_iff.1 hfu
  rw [has, has, hb, ret] at some
  cases some

theorem Step.Flaw.mono {names others : List String} {more : List Step} (flaw : Step.Flaw names ss e)
    (twice : ∀ n, Duplicate n names → Duplicate n others) (sub : ∀ s ∈ ss, s ∈ more) :
    Step.Flaw others more e := by
  cases flaw with
  | name mem bad => exact .name (sub _ mem) bad
  | duplicate mem dup => exact .duplicate (sub _ mem) (twice _ dup)
  | parameter mem param bad => exact .parameter (sub _ mem) param bad
  | empty mem empty => exact .empty (sub _ mem) empty

abbrev Unbroken (name : String) : Prop :=
  ∀ c ∈ name.toList, Sexpr.endsWord c = false

theorem not_isIdentifier {name : String} (hu : Unbroken name)
    (h : ¬ isIdentLine name) : ¬ IsIdentifier name :=
  fun hp => h ((isIdentLine_iff hu).2 hp)

theorem names_mapValues {β : Type} (f : α → β) (es : Entries α) : (es.mapValues f).names = es.names := by
  simp [mapValues, names, Function.comp_def]

theorem unbroken_of_mem_names (hf : tree.Fits Unbroken) {name : String}
    (h : name ∈ tree.inputs.names) : Unbroken name := by
  obtain ⟨e, mem, rfl⟩ := mem_map.1 h
  exact hf.inputs e mem

theorem flaw_of_checkStep (hf : s.Fits Unbroken) {seen others : List String}
    (h : checkStep seen s.toNode = .error e) : Step.Flaw (seen ++ s.name :: others) [s] e := by
  rw [checkStep_toNode hf, checkStepName_members] at h
  rcases except_bind_eq_error h with hr | ⟨name, hn, h⟩
  · rcases ite_eq_iff.1 hr with ⟨bad, ⟨⟩⟩ | ⟨-, hr⟩
    · exact .name mem_cons_self (not_isIdentifier hf.name (by simpa using bad))
    · obtain ⟨hk, ⟨⟩⟩ | ⟨-, ⟨⟩⟩ := ite_eq_iff.1 hr
      refine .duplicate mem_cons_self ?_
      have ho := count_pos_iff.2 (contains_iff_mem.1 hk)
      rw [duplicate_iff_two_le_count, count_append, count_cons_self]
      omega
  have hs : name = s.name := by
    obtain ⟨-, ⟨⟩⟩ | ⟨-, hn⟩ := ite_eq_iff.1 hn
    obtain ⟨-, ⟨⟩⟩ | ⟨-, ⟨⟩⟩ := ite_eq_iff.1 hn
    rfl
  rcases except_bind_eq_error h with hpa | ⟨⟨⟩, -, h⟩
  · obtain ⟨bad, rfl⟩ := eq_of_require hpa
    obtain ⟨p, hp, bad⟩ := all_eq_false.1 bad
    exact .parameter mem_cons_self hp (not_isIdentifier (known_of_mem_parameters hf hp) bad)
  rcases except_bind_eq_error h with he | ⟨⟨⟩, -, h⟩
  · obtain ⟨hne, rfl⟩ := eq_of_require he
    rw [hs]
    refine .empty mem_cons_self ?_
    simpa [Step.IsEmpty, has] using hne
  · cases h

theorem flaw_of_checkSteps (hf : ∀ s ∈ ss, s.Fits Unbroken)
    (h : checkSteps seen (ss.map Step.toNode) = .error e) : Step.Flaw (seen ++ ss.map Step.name) ss e := by
  induction ss generalizing seen with
  | nil => cases h
  | cons s ss ih =>
    rw [map_cons, checkSteps] at h
    cases first : checkStep seen s.toNode with
    | error e' =>
      rw [first] at h
      cases h
      refine (flaw_of_checkStep (hf s mem_cons_self) first).mono (fun n dup => dup) ?_
      intro t ht
      rw [mem_singleton.1 ht]
      exact mem_cons_self
    | ok name =>
      rw [first] at h
      obtain ⟨rfl, -⟩ := of_checkStep_eq_ok (hf s mem_cons_self) first
      have hfl := ih (fun t ht => hf t (mem_cons_of_mem s ht)) h
      refine hfl.mono ?_ fun t ht => mem_cons_of_mem s ht
      intro n dup
      rw [duplicate_iff_two_le_count] at dup ⊢
      rw [map_cons, perm_middle.count_eq]
      exact dup

theorem not_flaw_of_checkSteps (hf : ∀ s ∈ ss, s.Fits Unbroken)
    (h : checkSteps seen (ss.map Step.toNode) = .ok ()) :
    (∀ s ∈ ss, IsIdentifier s.name ∧ s.name ∉ seen ∧ (∀ p ∈ s.parameters, IsIdentifier p) ∧
      ¬ s.IsEmpty) ∧ (ss.map Step.name).Nodup := by
  induction ss generalizing seen with
  | nil => exact ⟨nofun, nodup_nil⟩
  | cons s ss ih =>
    rw [map_cons, checkSteps] at h
    obtain ⟨name, first, h⟩ := of_bind_ok h
    have fit := hf s mem_cons_self
    obtain ⟨rfl, hi, new, hpa, hfu⟩ := of_checkStep_eq_ok fit first
    obtain ⟨hs, hn⟩ := ih (fun t ht => hf t (mem_cons_of_mem s ht)) h
    constructor
    · intro t ht
      rcases mem_cons.1 ht with rfl | hl
      · refine ⟨(isIdentLine_iff fit.name).1 hi, new, fun p hp => ?_, hfu⟩
        exact (isIdentLine_iff (known_of_mem_parameters fit hp)).1 (all_eq_true.1 hpa p hp)
      · obtain ⟨hna, hu, hr⟩ := hs t hl
        exact ⟨hna, fun seen => hu (mem_cons_of_mem _ seen), hr⟩
    · refine nodup_cons.2 ⟨fun ha => ?_, hn⟩
      obtain ⟨t, ht, hsa⟩ := mem_map.1 ha
      exact (hs t ht).2.1 (hsa ▸ mem_cons_self)

/-! ## What is run -/

theorem get?_block_toNode (e : Expr) : ∃ ms, e.toNode = .obj ms ∧ get? "block" ms = none := by
  cases e <;> exact ⟨_, rfl, by simp⟩

theorem checkRun_toNode {r : Run} (hf : r.Fits) : checkRun r.toNode = .ok () := by
  cases r with
  | expr e =>
    obtain ⟨ms, ho, hn⟩ := get?_block_toNode e
    have hp := checkExpr_toNode e
    rw [ho] at hp
    rw [Run.toNode, ho, checkRun, hn]
    exact hp
  | block b => simp [Run.toNode, checkRun, checkStmts_toNodes b hf]

theorem exists_emitRun_toNode (r : Run) : ∃ ls : List String, emitRun r.toNode = .ok (ls.map .str) := by
  cases r with
  | block b =>
    obtain ⟨ls, hb⟩ := exists_emitBlock_toNodes b 4
    refine ⟨"def __vbl_run__():" :: ls ++ ["__vbl_result__ = __vbl_run__()"], ?_⟩
    simp [Run.toNode, emitRun, hb]
  | expr e =>
    obtain ⟨s, hs⟩ := exists_emit_toNode e
    cases e with
    | code ls =>
      refine ⟨"__vbl_result__ = None" :: Text.lines ls, ?_⟩
      simp [Run.toNode, Expr.toNode, emitRun]
    | _ =>
      refine ⟨["__vbl_result__ = " ++ s], ?_⟩
      simp_all [Run.toNode, Expr.toNode, emitRun, emitRun.assignResult, Node.display]

/-! ## Generating source -/

theorem exists_stepBody (hf : s.Fits Known) : ∃ ls, stepBody s.members = .ok ls := by
  unfold stepBody
  rw [Step.get?_members (by decide)]
  cases hbo : get? "body" s.properties with
  | some p =>
    rcases (hf.property hbo).eq_body with ⟨ls, rfl⟩ | ⟨b, rfl, -⟩
    · exact exists_marginLines_codeLines 4 ls
    · obtain ⟨ls, hb⟩ := exists_emitBlock_toNodes b 4
      refine ⟨ls, ?_⟩
      simpa [Node.codeOr] using hb
  | none =>
    rw [map_none, map_none, stepBody.stepReturn, Step.get?_members (by decide)]
    cases ret : get? "return" s.properties with
    | none => exact ⟨_, rfl⟩
    | some p =>
      obtain ⟨v, rfl⟩ := (hf.property ret).eq_ret
      obtain ⟨text, hs⟩ := exists_emit_toNode v
      simp [hs]

theorem exists_emitSteps (hf : ∀ s ∈ ss, s.Fits Known) : ∃ ls, emitSteps (ss.map Step.toNode) = .ok ls := by
  induction ss with
  | nil => exact ⟨[], rfl⟩
  | cons s ss ih =>
    obtain ⟨body, here⟩ := exists_stepBody (hf s mem_cons_self)
    obtain ⟨more, hr⟩ := ih fun t ht => hf t (mem_cons_of_mem s ht)
    rw [map_cons, Step.toNode_eq, emitSteps, emitStep]
    simp [here, hr]

theorem exists_generate (hf : tree.Fits Known) : ∃ text, generate tree.toMembers = .ok text := by
  obtain ⟨ss, hg⟩ := exists_emitSteps hf.steps
  obtain ⟨ls, run⟩ := exists_emitRun_toNode tree.run
  unfold generate
  simp [Tree.toMembers, hg, run, joinTexts_map_str]

/-! ## Programs -/

theorem check_toMembers (tree : Tree) : check tree.toMembers = (do
      checkEach checkImport (tree.imports.map Import.toNode)
      checkInputNames (mapValues Node.ofDatum tree.inputs)
      checkSteps [] (tree.steps.map Step.toNode)
      checkRun tree.run.toNode) := by
  simp [check, Tree.toMembers, mapValues]

theorem flaw_of_check (hf : tree.Fits Unbroken) (h : check tree.toMembers = .error e) : tree.Flaw e := by
  rw [check_toMembers] at h
  rcases except_bind_eq_error h with hi | ⟨⟨⟩, -, h⟩
  · obtain ⟨i, mem, hr⟩ := exists_of_checkEach_map hi
    by_cases hn : i.IsNamed
    · rw [(checkImport_toNode i).1 hn] at hr
      cases hr
    · rw [(checkImport_toNode i).2 hn] at hr
      cases hr
      exact .module mem hn
  rcases except_bind_eq_error h with hin | ⟨⟨⟩, -, h⟩
  · obtain ⟨name, mem, bad, rfl⟩ := exists_of_checkInputNames hin
    rw [names_mapValues] at mem
    exact .input mem (not_isIdentifier (unbroken_of_mem_names hf mem) bad)
  rcases except_bind_eq_error h with ss | ⟨⟨⟩, -, h⟩
  · exact .step (flaw_of_checkSteps hf.steps ss)
  · rw [checkRun_toNode hf.run] at h
    cases h

theorem not_flaw_of_check (fits : tree.Fits Unbroken) (h : check tree.toMembers = .ok ())
    (e : CheckError) : ¬ tree.Flaw e := by
  rw [check_toMembers] at h
  obtain ⟨⟨⟩, imports, h⟩ := of_bind_ok h
  obtain ⟨⟨⟩, inputs, h⟩ := of_bind_ok h
  obtain ⟨⟨⟩, ss, -⟩ := of_bind_ok h
  obtain ⟨sound, nodup⟩ := not_flaw_of_checkSteps fits.steps ss
  intro flaw
  cases flaw with
  | module mem unnamed =>
    have passed := checkEach_map_eq_ok_iff.1 imports _ mem
    rw [(checkImport_toNode _).2 unnamed] at passed
    cases passed
  | input mem bad =>
    have plain := checkInputNames_eq_ok_iff.1 inputs _ (by rwa [names_mapValues])
    exact bad ((isIdentLine_iff (unbroken_of_mem_names fits mem)).1 plain)
  | step flaw =>
    cases flaw with
    | name mem bad => exact bad (sound _ mem).1
    | duplicate mem twice => exact nodup_iff_forall_not_duplicate.1 nodup _ twice
    | parameter mem param bad => exact bad ((sound _ mem).2.2.1 _ param)
    | empty mem empty => exact (sound _ mem).2.2.2 empty

/-- A program with an input, a step that holds a context, and a call of the step. -/
def lendText : String :=
  "(input n 3) (step lend (params x) (body (with (x) (do (return x))))) (run (lend n))"

theorem check_lendText :
    ((parse lendText).toOption.map fun tree => (check tree.toMembers).toOption) = some (some ()) := by
  decide +kernel

end Program

end Appwright
