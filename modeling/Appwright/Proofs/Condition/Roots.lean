import Appwright.Proofs.Condition.Flaws

/-!
# What a condition depends on

A path starts at a root: the name of a value of the context. `roots` collects the roots of all paths
of a condition. An operator on items binds `item` for its condition, so there `item` is no root of
the whole; its own path is looked up outside, where `item` is a root like any other.

Two contexts with the same values at the roots of a condition cannot be told apart by it
(`eval_eq_of_roots`): it comes to the same truth value in both, or fails in the same way.
-/

namespace Appwright.Condition

open List Json Entries

/-! ## Roots -/

def root? (path : String) : Option String :=
  (pathSegments path).head?

mutual
/-- The roots of the paths of a condition, those apart that an operator on items binds. -/
def roots : Json → List String
  | .arr items => rootsOfAll items
  | .obj members =>
    if !isOperator members then members.filterMap fun e => root? e.1
    else
      match members with
      | [(op, arg)] =>
        if op == "$and" || op == "$or" then
          match arg with
          | .arr items => rootsOfAll items
          | _ => []
        else if op == "$not" then roots arg
        else if op == "$any" || op == "$all" then
          ((operatorPath? op arg).bind root?).toList ++
            match arg with
            | .arr [_, .obj inner] => (roots (.obj inner)).filter (· != "item")
            | _ => []
        else ((operatorPath? op arg).bind root?).toList
      | _ => []
  | _ => []
def rootsOfAll : List Json → List String
  | [] => []
  | c :: cs => roots c ++ rootsOfAll cs
end

variable {name op : String} {arg : Json}

theorem mem_rootsOfAll {xs : List Json} {c : Json} (ha : c ∈ xs) (hn : name ∈ roots c) :
    name ∈ rootsOfAll xs := by
  induction xs with
  | nil => cases ha
  | cons d ds ih =>
    rw [rootsOfAll]
    rcases mem_cons.1 ha with rfl | ha
    · exact mem_append_left _ hn
    · exact mem_append_right _ (ih ha)

theorem roots_several (hk : op ∈ ["$and", "$or"]) (xs : List Json) :
    roots (.obj [(op, .arr xs)]) = rootsOfAll xs := by
  have hl : ∀ op ∈ ["$and", "$or"], op ∈ operators := by decide
  have ho := isOperator_of_mem (hl op hk) (.arr xs)
  have one : (op == "$and" || op == "$or") := by simpa using hk
  rw [roots.eq_def]
  dsimp only
  rw [ho, one]
  rfl

theorem roots_not (c : Json) : roots (.obj [("$not", c)]) = roots c := by
  rw [roots.eq_def]
  dsimp only
  rw [isOperator_of_mem (by decide)]
  rfl

theorem mem_roots_of_key {ms : Members} (hp : isOperator ms = false)
    {e : String × Json} (ha : e ∈ ms) (hn : root? e.1 = some name) : name ∈ roots (.obj ms) := by
  rw [roots.eq_def]
  dsimp only
  rw [hp]
  exact mem_filterMap.2 ⟨e, ha, hn⟩

theorem mem_roots_of_path {path : String}
    (hf : operatorPath? op arg = some path) (hna : root? path = some name) :
    name ∈ roots (.obj [(op, arg)]) := by
  have ho : ∀ op ∈ itemOperators ++ leafOperators,
      (op == "$and" || op == "$or") = false ∧ (op == "$not") = false := by decide
  obtain ⟨hno, hn⟩ := ho op (mem_of_operatorPath? hf)
  have own : name ∈ ((operatorPath? op arg).bind root?).toList := by
    rw [hf, Option.bind_some, hna]
    exact mem_singleton_self name
  rw [roots.eq_def]
  dsimp only
  rw [isOperator_of_operatorPath? hf, hno, hn]
  by_cases hi : (op == "$any" || op == "$all")
  · rw [hi]
    exact mem_append_left _ own
  · rw [Bool.eq_false_iff.2 hi]
    exact own

theorem mem_roots_of_inner (hk : op ∈ itemOperators) {path : Json}
    {mid : Members} (hna : name ∈ roots (.obj mid)) (hf : name ≠ "item") :
    name ∈ roots (.obj [(op, .arr [path, .obj mid])]) := by
  have hi : ∀ op ∈ itemOperators, op ∈ operators ∧ (op == "$and" || op == "$or") = false ∧
      (op == "$not") = false ∧ (op == "$any" || op == "$all") := by decide
  obtain ⟨hl, hno, hn, one⟩ := hi op hk
  have ho := isOperator_of_mem hl (.arr [path, .obj mid])
  rw [roots.eq_def]
  dsimp only
  rw [ho, hno, hn, one]
  exact mem_append_right _ (mem_filter.2 ⟨hna, by simpa using hf⟩)

/-! ## Contexts that agree -/

def valueOf (context : Members) (name : String) : Json :=
  (get? name context).getD .null

def Agree (names : List String) (context other : Members) : Prop :=
  ∀ name ∈ names, valueOf context name = valueOf other name

section

variable {ctx other : Members}

theorem Agree.mono {ns fewer : List String} (ha : Agree ns ctx other)
    (ham : ∀ name ∈ fewer, name ∈ ns) : Agree fewer ctx other :=
  fun name hn => ha name (ham name hn)

theorem Agree.put_item {ns : List String}
    (ha : ∀ name ∈ ns, name ≠ "item" → valueOf ctx name = valueOf other name) (v : Json) :
    Agree ns (put "item" v ctx) (put "item" v other) := by
  intro name hn
  unfold valueOf
  by_cases hb : name = "item"
  · rw [hb, get?_put_self, get?_put_self]
  · rw [get?_put_of_ne hb, get?_put_of_ne hb]
    exact ha name hn hb

theorem valueAt_eq_of_root {path : String}
    (ha : ∀ name, root? path = some name → valueOf ctx name = valueOf other name) :
    valueAt path ctx = valueAt path other := by
  unfold valueAt Json.lookup
  cases hs : pathSegments path with
  | nil => rfl
  | cons root rest =>
    have hsa := ha root (by rw [root?, hs, head?_cons])
    unfold valueOf at hsa
    simp only [hsa]

end

theorem scan_congr {α : Type} {onward : Bool} {f g : α → Outcome} {xs : List α}
    (hs : ∀ x ∈ xs, f x = g x) : scan onward f xs = scan onward g xs := by
  induction xs with
  | nil => rfl
  | cons x xs ih =>
    rw [scan, scan, hs x mem_cons_self, ih fun y hy => hs y (mem_cons_of_mem _ hy)]

theorem onPair_congr {f g : String → Json → Outcome}
    (hs : ∀ path v, arg = .arr [.str path, v] → f path v = g path v) :
    onPair op f arg = onPair op g arg := by
  unfold onPair
  split
  next path v =>
    refine except_bind_congr fun p hf => ?_
    obtain rfl := of_pathOf hf
    exact hs p v rfl
  next => rfl

/-! ## Conditions -/

section

variable {ctx other : Members}

variable {arg : Json}

theorem existence_eq_of_path (hs : ∀ path, operatorPath? "$exists" arg = some path →
      valueAt path ctx = valueAt path other) : existence arg ctx = existence arg other := by
  unfold existence
  split
  next path wanted =>
    refine except_bind_congr fun p hf => ?_
    obtain rfl := of_pathOf hf
    rw [hs p rfl]
  next => rfl
  next =>
    refine except_bind_congr fun p hf => ?_
    obtain rfl := of_pathOf hf
    rw [hs p rfl]

variable {op : String}

theorem overItems_eq_of_inner {mid : Json} (hs : ∀ ms, mid = .obj ms → ∀ v,
      eval mid (put "item" v ctx) = eval mid (put "item" v other))
    (actual : Json) : overItems ctx op mid actual = overItems other op mid actual := by
  cases mid with
  | obj ms =>
    cases actual with
    | arr xs => exact scan_congr fun v _ => hs ms rfl v
    | _ => rfl
  | _ => rfl

theorem operate_eq_of_roots
    (hi : ∀ d, sizeOf d < sizeOf (obj [(op, arg)]) → ∀ ctx other : Members,
      Agree (roots d) ctx other → eval d ctx = eval d other)
    (ha : Agree (roots (.obj [(op, arg)])) ctx other) :
    operate ctx op arg = operate other op arg := by
  have hat (path : String) (hf : operatorPath? op arg = some path) :
      valueAt path ctx = valueAt path other :=
    valueAt_eq_of_root fun name hn => ha name (mem_roots_of_path hf hn)
  refine ite_congr rfl (fun hs => ?_) fun _ =>
    ite_congr rfl (fun hne => ?_) fun _ => ite_congr rfl (fun ho => ?_) fun _ =>
    ite_congr rfl (fun he => ?_) fun _ => ite_congr rfl (fun ht => ?_) fun _ => ?_
  · have hk : op ∈ ["$and", "$or"] := by simpa using hs
    cases arg with
    | arr xs =>
      rw [roots_several hk] at ha
      refine scan_congr fun d ham => hi d ?_ ctx other ?_
      · exact Nat.lt_trans (sizeOf_lt_arr ham) (sizeOf_lt_obj op _)
      · exact ha.mono fun name hn => mem_rootsOfAll ham hn
    | _ => rfl
  · obtain rfl := eq_of_beq hne
    rw [roots_not] at ha
    rw [hi arg (sizeOf_lt_obj _ arg) ctx other ha]
  · have hk : op ∈ itemOperators := by simpa [itemOperators] using ho
    refine onPair_congr fun path mid hp => ?_
    subst hp
    rw [hat path (operatorPath?_arr (mem_append_left _ (mem_cons_of_mem _ hk)) _ _)]
    refine bind_congr fun actual => overItems_eq_of_inner (fun ms hob v => ?_) actual
    subst hob
    refine hi _ ?_ _ _ (Agree.put_item (fun name hn hfr => ?_) v)
    · exact Nat.lt_trans (sizeOf_lt_arr (by simp)) (sizeOf_lt_obj op _)
    · exact ha name (mem_roots_of_inner hk hn hfr)
  · obtain rfl := eq_of_beq he
    exact existence_eq_of_path hat
  · obtain rfl := eq_of_beq ht
    refine except_bind_congr fun path hf => ?_
    obtain rfl := of_pathOf hf
    rw [hat path rfl]
  · cases hf : compareOperator? op with
    | none => rw [Option.elim_none, Option.elim_none]
    | some compare =>
      refine onPair_congr fun path want hp => ?_
      subst hp
      rw [hat path (operatorPath?_pair (mem_of_compareOperator? hf) path want)]

/-- One step: if the conditions inside cannot tell the contexts apart, neither can the whole. -/
theorem opened_eq_of_roots {c : Json} (hi : ∀ d, sizeOf d < sizeOf c → ∀ ctx other : Members,
      Agree (roots d) ctx other → eval d ctx = eval d other)
    (ha : Agree (roots c) ctx other) : opened ctx c = opened other c := by
  cases c with
  | arr xs =>
    rw [roots] at ha
    refine scan_congr fun d ham => hi d (sizeOf_lt_arr ham) ctx other ?_
    exact ha.mono fun name hn => mem_rootsOfAll ham hn
  | obj ms =>
    rw [opened, opened]
    refine ite_congr rfl (fun hp => ?_) fun _ => ?_
    · rw [equalities_eq_scan, equalities_eq_scan]
      refine scan_congr fun e ham => ?_
      have hs : valueAt e.1 ctx = valueAt e.1 other := valueAt_eq_of_root fun name hn =>
        ha name (mem_roots_of_key (by simpa using hp) ham hn)
      rw [equality, equality, hs]
    · rcases ms with _ | ⟨⟨op, arg⟩, _ | ⟨e, rest⟩⟩
      · rfl
      · rw [operateOnly, operateOnly, operate_eq_of_roots hi ha]
      · rfl
  | _ => rfl

end

/-- A condition comes to the same, truth value or failure, in any two contexts that have the same
values at its roots. -/
theorem eval_eq_of_roots (c : Json) (context other : Json.Members)
    (agree : ∀ name ∈ roots c, valueOf context name = valueOf other name) :
    eval c context = eval c other := by
  rw [eval_eq_opened, eval_eq_opened]
  exact opened_eq_of_roots
    (fun d _ context other agree => eval_eq_of_roots d context other agree) agree
termination_by sizeOf c

/-- Some group of a row has only red tags. The inner path starts at the item of the outer operator. -/
def redGroup : Json :=
  .obj [("$any", .arr [.str "row.groups",
    .obj [("$all", .arr [.str " item.tags", .obj [("item.color", .str "red")]])]])]

def twoGroups : Json :=
  .obj [("groups", .arr [
    .obj [("tags", .arr [.obj [("color", .str "red")], .obj [("color", .str "blue")]])],
    .obj [("tags", .arr [.obj [("color", .str "red")]])]])]

/-- The contexts differ in an item from outside, which the operators bind anew. -/
theorem eval_redGroup_eq :
    roots redGroup = ["row"] ∧
      eval redGroup [("row", twoGroups), ("item", .str "blue")] = .ok true ∧
      eval redGroup [("row", twoGroups), ("item", .str "blue")] =
        eval redGroup [("item", .obj [("tags", .null)]), ("vars", .obj []), ("row", twoGroups)] := by
  have named : roots redGroup = ["row"] := by decide +kernel
  refine ⟨named, by decide +kernel, eval_eq_of_roots redGroup _ _ fun name among => ?_⟩
  rw [named, List.mem_singleton] at among
  rw [among]
  rfl

end Appwright.Condition
