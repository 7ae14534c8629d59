import Appwright.Condition.Basic
import Appwright.Proofs.Entries
import Appwright.Proofs.Run

/-!
# When operators have a truth value

Each operator comes to a truth value only for arguments of its shape (`Shaped`). For these the three
families are told apart: conditions in a row or negated, conditions on the items of an array, and
comparisons of the value that a path leads to. All that goes through several conditions or items is
one `scan`, which gets as far as the values on the way let it.
-/

namespace Appwright.Condition

open List Json Entries Text

/-! ## Scanning -/

/-- Goes through items as long as they come to a truth value; the first that does not decides. -/
def scan {α : Type} (onward : Bool) (f : α → Outcome) : List α → Outcome
  | [] => .ok onward
  | x :: xs =>
    match f x with
    | .ok b => if b = onward then scan onward f xs else .ok b
    | .error e => .error e

variable (items : List Json) (ctx : Members)

theorem evalAll_eq_scan : evalAll items ctx = scan true (eval · ctx) items := by
  induction items with
  | nil => rw [evalAll, scan]
  | cons c cs ih =>
    rw [evalAll, scan, ih]
    rcases eval c ctx with _ | _ | _ <;> rfl

theorem evalAny_eq_scan : evalAny items ctx = scan false (eval · ctx) items := by
  induction items with
  | nil => rw [evalAny, scan]
  | cons c cs ih =>
    rw [evalAny, scan, ih]
    rcases eval c ctx with _ | _ | _ <;> rfl

section Items

variable (holds : Members → Outcome) (ctx : Members) (items : List Json)

theorem anyItem_eq_scan : anyItem holds ctx items =
    scan false (fun v => holds (put "item" v ctx)) items := by
  induction items with
  | nil => rfl
  | cons v vs ih =>
    rw [anyItem, scan, ih]
    rcases holds (put "item" v ctx) with _ | _ | _ <;> rfl

theorem allItems_eq_scan : allItems holds ctx items =
    scan true (fun v => holds (put "item" v ctx)) items := by
  induction items with
  | nil => rfl
  | cons v vs ih =>
    rw [allItems, scan, ih]
    rcases holds (put "item" v ctx) with _ | _ | _ <;> rfl

end Items

theorem exists_scan_iff {α : Type} {onward : Bool} {f : α → Outcome} {xs : List α} :
    (∃ b, scan onward f xs = .ok b) ↔
      ∀ pre x post, xs = pre ++ x :: post → (∀ p ∈ pre, f p = .ok onward) → ∃ b, f x = .ok b := by
  induction xs with
  | nil => simp [scan]
  | cons y ys ih =>
    rw [scan]
    constructor
    · rintro ⟨b, hd⟩ pre x post hpa hb
      cases pre with
      | nil =>
        obtain ⟨rfl, rfl⟩ := cons.inj hpa
        cases first : f y with
        | error e => simp [first] at hd
        | ok b' => exact ⟨b', rfl⟩
      | cons p pre =>
        obtain ⟨rfl, rfl⟩ := cons.inj hpa
        simp only [hb y mem_cons_self, if_true] at hd
        exact ih.1 ⟨b, hd⟩ pre x post rfl fun q hq => hb q (mem_cons_of_mem _ hq)
    · intro he
      obtain ⟨b, first⟩ := he [] y ys rfl (by simp)
      simp only [first]
      by_cases go : b = onward
      · rw [if_pos go]
        refine ih.2 fun pre x post hpa hb => he (y :: pre) x post (by rw [hpa]; rfl) ?_
        intro p hp
        rcases mem_cons.1 hp with rfl | hp
        · rw [first, go]
        · exact hb p hp
      · rw [if_neg go]
        exact ⟨b, rfl⟩

/-! ## Operators -/

def orderOperators : List String := ["$gt", "$gte", "$lt", "$lte"]

def itemOperators : List String := ["$any", "$all"]

def compareOperators : List String :=
  ["$eq", "$ne", "$contains", "$in", "$startsWith", "$endsWith", "$regex"] ++ orderOperators

def leafOperators : List String :=
  ["$exists", "$truthy"] ++ compareOperators

def operators : List String :=
  ["$and", "$or", "$not"] ++ (itemOperators ++ leafOperators)

theorem isOperator_singleton (op : String) (arg : Json) :
    isOperator [(op, arg)] = startsWith op "$" := by
  simp [isOperator]

variable {op path : String} {arg v want : Json} {b : Bool} {ctx : Members} {complaint : Error}
  {compare : Json → Json → Outcome}

theorem names_of_mem (hk : op ∈ operators) : startsWith op "$" ∧ isOperatorName op := by
  revert op
  decide

theorem isOperator_of_mem (hk : op ∈ operators) (arg : Json) : isOperator [(op, arg)] := by
  rw [isOperator_singleton, (names_of_mem hk).1]

/-- What an operator makes of several conditions, which have to be an array. -/
def onItems (op : String) (answer : List Json → Outcome) : Json → Outcome
  | .arr items => answer items
  | _ => .error (.listExpected op)

/-- What an operator makes of a path that is not blank, and of another value. -/
def onPair (op : String) (answer : String → Json → Outcome) : Json → Outcome
  | .arr [path, v] => do
    let path ← pathOf (.emptyPath op) path
    answer path v
  | _ => .error (.pairExpected op)

/-- What an operator on items makes of its condition and of the value at its path. -/
def overItems (context : Members) (op : String) : (inner actual : Json) → Outcome
  | .obj _, .null => .ok (op == "$all")
  | .obj members, .arr items =>
    scan (op == "$all") (fun v => eval (.obj members) (put "item" v context)) items
  | .obj _, _ => .ok false
  | _, _ => .error (.conditionExpected op)

/-- What an operator comes to, in terms of the conditions in its argument. -/
def operate (context : Members) (op : String) (arg : Json) : Outcome :=
  if op == "$and" || op == "$or" then
    onItems op (scan (op == "$and") (eval · context)) arg
  else if op == "$not" then (eval arg context).map (!·)
  else if op == "$any" || op == "$all" then
    onPair op (fun path inner => do overItems context op inner (← valueAt path context)) arg
  else if op == "$exists" then existence arg context
  else if op == "$truthy" then do
    let path ← pathOf .truthyPath arg
    let v ← valueAt path context
    return v.truthy
  else
    (compareOperator? op).elim (.error (.unknownOperator op)) fun compare =>
      onPair op (fun path expected => do compare (← valueAt path context) expected) arg

/-- What an object with an operator comes to: there has to be nothing else in it. -/
def operateOnly (context : Members) : Members → Outcome
  | [(op, arg)] => if !isOperatorName op then .error .operatorName else operate context op arg
  | _ => .error .oneOperator

/-- What a condition comes to, in terms of the conditions in it. -/
def opened (context : Members) : Json → Outcome
  | .null => .ok true
  | .bool b => .ok b
  | .arr items => scan true (eval · context) items
  | .obj members =>
    if !isOperator members then equalities context members else operateOnly context members
  | _ => .ok false

/-- Every statement about the evaluation of one condition starts from here. -/
theorem eval_eq_opened (c : Json) (ctx : Members) : eval c ctx = opened ctx c := by
  rw [eval.eq_def]
  cases c with
  | arr items => exact evalAll_eq_scan items ctx
  | obj ms =>
    rcases ms with _ | ⟨⟨op, arg⟩, _ | ⟨e, rest⟩⟩
    · rfl
    · refine ite_congr rfl (fun _ => rfl) fun _ => ?_
      refine ite_congr rfl (fun _ => rfl) fun _ => ?_
      rw [operate]
      by_cases hc : op = "$and"
      · subst hc
        cases arg with
        | arr items => exact evalAll_eq_scan items ctx
        | _ => rfl
      by_cases hd : op = "$or"
      · subst hd
        cases arg with
        | arr items => exact evalAny_eq_scan items ctx
        | _ => rfl
      simp only [beq_eq_false_iff_ne.2 hc, beq_eq_false_iff_ne.2 hd, Bool.or_self,
        Bool.false_eq_true, if_false]
      refine ite_congr rfl (fun _ => rfl) fun _ => ite_congr rfl (fun one => ?_) fun _ =>
        ite_congr rfl (fun _ => rfl) fun _ => ite_congr rfl (fun _ => rfl) fun _ => ?_
      · cases arg with
        | arr pair =>
          rcases pair with _ | ⟨path, _ | ⟨mid, _ | ⟨more, rest⟩⟩⟩
          · rfl
          · rfl
          · refine bind_congr fun path => bind_congr fun actual => ?_
            rcases (by simpa using one : op = "$any" ∨ op = "$all") with rfl | rfl
            · cases mid with
              | obj ms =>
                cases actual with
                | arr items => exact anyItem_eq_scan _ ctx items
                | _ => rfl
              | _ => rfl
            · cases mid with
              | obj ms =>
                cases actual with
                | arr items => exact allItems_eq_scan _ ctx items
                | _ => rfl
              | _ => rfl
          · rfl
        | _ => rfl
      · cases compareOperator? op with
        | none => rfl
        | some compare =>
          cases arg with
          | arr pair => rcases pair with _ | ⟨path, _ | ⟨want, _ | ⟨more, rest⟩⟩⟩ <;> rfl
          | _ => rfl
    · rfl
  | _ => rfl

theorem eval_of_isOperator (ho : isOperator [(op, arg)]) (ctx : Members) :
    eval (.obj [(op, arg)]) ctx =
      if !isOperatorName op then .error .operatorName else operate ctx op arg := by
  rw [eval_eq_opened, opened, ho]
  rfl

theorem eval_operator (hk : op ∈ operators) (arg : Json) (ctx : Members) :
    eval (.obj [(op, arg)]) ctx = operate ctx op arg := by
  rw [eval_of_isOperator (isOperator_of_mem hk arg), (names_of_mem hk).2]
  rfl

theorem eval_not (c : Json) (ctx : Members) : eval (.obj [("$not", c)]) ctx = (eval c ctx).map (!·) :=
  eval_operator (by decide) c ctx

theorem eval_several (hk : op ∈ ["$and", "$or"]) (items : List Json) (ctx : Members) :
    eval (.obj [(op, .arr items)]) ctx = scan (op == "$and") (eval · ctx) items := by
  fin_cases hk
  · exact eval_operator (by decide) _ ctx
  · exact eval_operator (by decide) _ ctx

theorem eval_truthy (path : String) (ctx : Members) : eval (.obj [("$truthy", .str path)]) ctx = (do
      let path ← pathOf .truthyPath (.str path)
      let v ← valueAt path ctx
      return v.truthy) :=
  eval_operator (by decide) _ ctx

theorem exists_atPath_iff {ans : Json → Outcome} : (∃ b, (do
      let path ← pathOf complaint (.str path)
      let v ← valueAt path ctx
      ans v) = .ok b) ↔
    isBlankText path = false ∧ ∃ v, valueAt path ctx = .ok v ∧ ∃ b, ans v = .ok b := by
  rw [pathOf]
  cases isBlankText path with
  | true => simp [bind, Except.bind]
  | false =>
    cases hf : valueAt path ctx with
    | error | ok => simp [bind, Except.bind, hf]

/-- Two numbers of which one is a whole number that no float comes near. -/
def TooLarge (a b : Json) : Prop :=
  ∃ x y, number? a = some x ∧ number? b = some y ∧ (x = .error .tooLarge ∨ y = .error .tooLarge)

theorem exists_compareNumbers_iff {test : Float → Float → Bool} {a b : Json} :
    (∃ r, compareNumbers test a b = .ok r) ↔ ¬ TooLarge a b := by
  have only (v : Json) (e : Error) (h : number? v = some (.error e)) : e = .tooLarge := by
    cases v <;> simp only [number?, Option.some.injEq, reduceCtorEq] at h
    split at h <;> simp_all
  unfold compareNumbers TooLarge
  cases hx : number? a with
  | none => simp
  | some x =>
    cases hy : number? b with
    | none => simp
    | some y =>
      cases x with
      | error e => simp [bind, Except.bind, only a e hx]
      | ok x =>
        cases y with
        | error e => simp [bind, Except.bind, only b e hy]
        | ok y => simp [bind, Except.bind, pure, Except.pure]

/-- An operator with arguments of the kinds that it takes. -/
inductive Shaped : String → Json → Prop
  | several {op : String} (known : op ∈ ["$and", "$or"]) (items : List Json) :
      Shaped op (.arr items)
  | negation (c : Json) : Shaped "$not" c
  | items {op : String} (known : op ∈ itemOperators) (path : String) (inner : Members) :
      Shaped op (.arr [.str path, .obj inner])
  | found (path : String) : Shaped "$exists" (.str path)
  | foundAs (path : String) (wanted : Json) : Shaped "$exists" (.arr [.str path, wanted])
  | truthy (path : String) : Shaped "$truthy" (.str path)
  | compared {op : String} (known : op ∈ ["$eq", "$ne", "$contains"] ++ orderOperators)
      (path : String) (expected : Json) : Shaped op (.arr [.str path, expected])
  | among (path : String) (values : List Json) : Shaped "$in" (.arr [.str path, .arr values])
  | text {op : String} (known : op ∈ ["$startsWith", "$endsWith", "$regex"]) (path s : String) :
      Shaped op (.arr [.str path, .str s])

def Misshapen (c : Json) : Prop :=
  ∃ members, c = .obj members ∧ isOperator members = true ∧
    ¬ ∃ op arg, members = [(op, arg)] ∧ Shaped op arg

def operatorPath? (op : String) : Json → Option String
  | .arr [.str path, _] =>
    if ("$exists" :: itemOperators ++ compareOperators).contains op then some path else none
  | .str path => if ["$exists", "$truthy"].contains op then some path else none
  | _ => none

def PatternReads (c : Json) : Prop :=
  ∀ path s, c = .obj [("$regex", .arr [.str path, .str s])] → ∃ pattern, Regex.parse s = .ok pattern

theorem others_of_mem (hk : op ∈ compareOperators) :
    ∀ other ∈ ["$and", "$or", "$not", "$any", "$all", "$exists", "$truthy"], (op == other) = false := by
  revert op
  decide

theorem eval_compare (hk : op ∈ compareOperators) (hf : compareOperator? op = some compare)
    (path : String) (want : Json) (ctx : Members) : eval (.obj [(op, .arr [.str path, want])]) ctx = (do
      let path ← pathOf (.emptyPath op) (.str path)
      let actual ← valueAt path ctx
      compare actual want) := by
  have hl : ∀ op ∈ compareOperators, op ∈ operators := by decide
  have ho := others_of_mem hk
  rw [eval_operator (hl op hk), operate, ho "$and" (by decide), ho "$or" (by decide), ho "$not" (by decide),
    ho "$any" (by decide), ho "$all" (by decide), ho "$exists" (by decide), ho "$truthy" (by decide), hf]
  rfl

theorem operatorPath?_arr (hl : op ∈ "$exists" :: itemOperators ++ compareOperators)
    (path : String) (v : Json) : operatorPath? op (.arr [.str path, v]) = some path := by
  rw [operatorPath?, if_pos (contains_iff_mem.2 hl)]

theorem operatorPath?_pair (hk : op ∈ compareOperators) (path : String) (want : Json) :
    operatorPath? op (.arr [.str path, want]) = some path :=
  operatorPath?_arr (mem_append_right _ hk) path want

/-- What an operator needs of the value at its path: that numbers are compared only if they are not
too large, and that its condition comes to a truth value for the items that it gets to. -/
structure Fits (context : Members) (op : String) (arg v : Json) : Prop where
  order : op ∈ orderOperators → ∀ path expected, arg = .arr [path, expected] → ¬ TooLarge v expected
  items : op ∈ itemOperators → ∀ path inner items, arg = .arr [path, .obj inner] →
    v = .arr items → ∃ b, scan (op == "$all")
      (fun w => eval (.obj inner) (put "item" w context)) items = .ok b

/-- An operator looks at the value at its path, and comes to a truth value if that fits. -/
def LooksAt (context : Members) (op : String) (arg : Json) : Prop :=
  ∃ path complaint, ∃ answer : Json → Outcome, operatorPath? op arg = some path ∧
    eval (.obj [(op, arg)]) context = (do
      let path ← pathOf complaint (.str path)
      let v ← valueAt path context
      answer v) ∧
    ∀ v, (∃ b, answer v = .ok b) ↔ Fits context op arg v

theorem fits_iff_order (hot : op ∉ itemOperators) {path : Json} :
    Fits ctx op (.arr [path, want]) v ↔ (op ∈ orderOperators → ¬ TooLarge v want) := by
  refine ⟨fun hf ho => hf.order ho path want rfl, fun hs => ?_⟩
  refine ⟨?_, fun one => absurd one hot⟩
  rintro ho _ _ ⟨⟩
  exact hs ho

theorem looksAt_of_compare (hk : op ∈ compareOperators)
    (hf : compareOperator? op = some compare)
    (ha : ∀ v, (∃ b, compare v want = .ok b) ↔ (op ∈ orderOperators → ¬ TooLarge v want)) :
    LooksAt ctx op (.arr [.str path, want]) := by
  have hn : ∀ op ∈ compareOperators, op ∉ itemOperators := by decide
  exact ⟨path, _, _, operatorPath?_pair hk path want, eval_compare hk hf path _ ctx,
    fun v => (ha v).trans (fits_iff_order (hn op hk)).symm⟩

theorem Shaped.looksAt (hs : Shaped op arg) (hk : op ∈ itemOperators ++ leafOperators)
    (hr : PatternReads (.obj [(op, arg)])) : LooksAt ctx op arg := by
  have hn : ∀ op ∈ ["$and", "$or"], op ∉ itemOperators ++ leafOperators := by decide
  have hno : ∀ op ∈ itemOperators, op ∉ orderOperators := by decide
  have hp {arg v : Json} {op : String} (hf : op ∉ orderOperators ++ itemOperators) : Fits ctx op arg v :=
    ⟨fun one => absurd (mem_append_left _ one) hf, fun one => absurd (mem_append_right _ one) hf⟩
  cases hs with
  | several ho items => exact absurd hk (hn _ ho)
  | negation c => exact absurd hk (by decide)
  | items one path mid =>
    have ha (v : Json) : (∃ b, overItems ctx op (.obj mid) v = .ok b) ↔
        Fits ctx op (.arr [.str path, .obj mid]) v := by
      refine ⟨fun hd => ⟨fun hor => absurd hor (hno op one), ?_⟩, fun hfi => ?_⟩
      · rintro - _ _ items ⟨⟩ rfl
        exact hd
      · cases v with
        | arr items => exact hfi.items one _ mid items rfl rfl
        | _ => exact ⟨_, rfl⟩
    fin_cases one
    · exact ⟨path, _, _, rfl, eval_operator (by decide) _ ctx, ha⟩
    · exact ⟨path, _, _, rfl, eval_operator (by decide) _ ctx, ha⟩
  | found path | foundAs path wanted | truthy path =>
    exact ⟨path, _, _, rfl, eval_operator (by decide) _ ctx, fun v => iff_of_true ⟨_, rfl⟩ (hp (by decide))⟩
  | compared one path want =>
    simp only [orderOperators, cons_append, nil_append, mem_cons, not_mem_nil, or_false] at one
    rcases one with rfl | rfl | rfl | rfl | rfl | rfl | rfl
    iterate 3 exact looksAt_of_compare (by decide) rfl fun v => by simp [orderOperators]
    iterate 4 exact looksAt_of_compare (by decide) rfl fun v =>
        exists_compareNumbers_iff.trans (by simp [orderOperators])
  | among path vs => exact looksAt_of_compare (by decide) rfl fun v => by simp [orderOperators]
  | text one path s =>
    fin_cases one
    iterate 2 exact looksAt_of_compare (by decide) rfl fun v => by cases v <;> simp [orderOperators]
    · obtain ⟨pat, hre⟩ := hr path s rfl
      exact looksAt_of_compare (by decide) rfl fun v => by cases v <;> simp [orderOperators, hre]

theorem of_pathOf (h : pathOf complaint v = .ok path) : v = .str path := by
  cases v with
  | str s =>
    rw [pathOf] at h
    split at h
    · cases h
    · cases h
      rfl
  | _ => cases h

theorem of_onPair {ans : String → Json → Outcome} (hd : onPair op ans arg = .ok b) :
    ∃ path v, arg = .arr [.str path, v] ∧ ans path v = .ok b := by
  unfold onPair at hd
  split at hd
  next path v =>
    obtain ⟨p, first, ha⟩ := of_bind_ok hd
    obtain rfl := of_pathOf first
    exact ⟨p, v, rfl, ha⟩
  next => cases hd

theorem mem_of_compareOperator? (hf : compareOperator? op = some compare) : op ∈ compareOperators := by
  by_contra ho
  simp only [compareOperators, orderOperators, cons_append, nil_append, mem_cons,
    not_mem_nil, or_false, not_or] at ho
  simp [compareOperator?, ho] at hf

theorem shaped_of_compare (hf : compareOperator? op = some compare)
    (hd : compare v want = .ok b) : Shaped op (.arr [.str path, want]) := by
  have hk := mem_of_compareOperator? hf
  simp only [compareOperators, cons_append, nil_append, mem_cons] at hk
  rcases hk with rfl | rfl | rfl | rfl | rfl | rfl | rfl | hk
  iterate 3 exact .compared (by decide) path want
  · cases hf
    cases want with
    | arr vs => exact .among path vs
    | _ => cases hd
  iterate 3
    cases hf
    cases want with
    | str s => exact .text (by decide) path s
    | _ => cases hd
  · exact .compared (mem_append_right _ hk) path want

theorem shaped_of_eval (ho : isOperator [(op, arg)])
    (hd : eval (.obj [(op, arg)]) ctx = .ok b) : Shaped op arg := by
  rw [eval_of_isOperator ho, operate] at hd
  split at hd
  next => cases hd
  split at hd
  next one =>
    have hk : op ∈ ["$and", "$or"] := by simpa using one
    cases arg with
    | arr items => exact .several hk items
    | _ => cases hd
  split at hd
  next hs =>
    obtain rfl := eq_of_beq hs
    exact .negation arg
  split at hd
  next one =>
    have hk : op ∈ itemOperators := by simpa [itemOperators] using one
    obtain ⟨path, mid, rfl, ha⟩ := of_onPair hd
    obtain ⟨v, -, han⟩ := of_bind_ok ha
    cases mid with
    | obj ms => exact .items hk path ms
    | _ => cases han
  split at hd
  next hs =>
    obtain rfl := eq_of_beq hs
    unfold existence at hd
    split at hd
    next path wanted =>
      obtain ⟨p, first, -⟩ := of_bind_ok hd
      obtain rfl := of_pathOf first
      exact .foundAs p wanted
    next => cases hd
    next =>
      obtain ⟨p, first, -⟩ := of_bind_ok hd
      obtain rfl := of_pathOf first
      exact .found p
  split at hd
  next hs =>
    obtain rfl := eq_of_beq hs
    obtain ⟨p, first, -⟩ := of_bind_ok hd
    obtain rfl := of_pathOf first
    exact .truthy p
  next =>
    cases hf : compareOperator? op with
    | none =>
      rw [hf] at hd
      cases hd
    | some compare =>
      rw [hf] at hd
      obtain ⟨path, want, rfl, ha⟩ := of_onPair hd
      obtain ⟨v, -, han⟩ := of_bind_ok ha
      exact shaped_of_compare hf han

end Appwright.Condition
