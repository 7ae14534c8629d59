import Appwright.Proofs.Condition.Operators

/-!
# What keeps a condition from having a truth value

A condition of the right shape may still fail on the data: it names a path that is blank or has a
position that cannot be read, or orders a number beyond the range of floats. `Flaw` lists these, and
`Asks` and `AsksOf` the conditions it depends on. Without a flaw a condition comes to a truth value
as soon as those do (`exists_eval_iff`).
-/

namespace Appwright.Condition

open List Json Text Entries Decimal

/-! ## Paths -/

/-- A path on which digits that write no number stand for a position in an array. -/
def Unreadable (path : String) (context : Members) : Prop :=
  ∃ root before segment after items,
    pathSegments path = root :: (before ++ segment :: after) ∧
    follow ((Entries.get? root context).getD .null) before = .ok (.arr items) ∧
    segment.toList.all isDigit = true ∧ ¬ ∃ n, Decimal.readInt segment = .ok n

theorem exists_step_error_iff {seg : String} (hf : seg.isEmpty = false) (v : Json) :
    (∃ e, step v seg = .error e) ↔ (∃ items, v = .arr items) ∧ seg.toList.all isDigit ∧
        ¬ ∃ n, readInt seg = .ok n := by
  cases v with
  | arr items =>
    rw [step, hf]
    by_cases hd : seg.toList.all isDigit
    · cases hr : readInt seg <;> simp [hd]
    · simp [hd]
  | _ => simp [step]

theorem exists_follow_error_iff {segs : List String} (hf : ∀ s ∈ segs, s.isEmpty = false) (v : Json) :
    (∃ e, follow v segs = .error e) ↔ ∃ pre seg post items, segs = pre ++ seg :: post ∧
        follow v pre = .ok (.arr items) ∧
        seg.toList.all isDigit ∧ ¬ ∃ n, readInt seg = .ok n := by
  induction segs generalizing v with
  | nil => simp [follow]
  | cons s rest ih =>
    have hs := exists_step_error_iff (hf s mem_cons_self) v
    cases hta : step v s with
    | error e =>
      obtain ⟨⟨items, rfl⟩, hw⟩ := hs.1 ⟨e, hta⟩
      exact iff_of_true ⟨e, by rw [follow, hta]⟩ ⟨[], s, rest, items, rfl, rfl, hw⟩
    | ok w =>
      rw [follow, hta]
      refine (ih (fun t ht => hf t (mem_cons_of_mem _ ht)) w).trans ?_
      constructor
      · rintro ⟨pre, seg, post, items, rfl, hr, hw⟩
        refine ⟨s :: pre, seg, post, items, rfl, ?_, hw⟩
        rw [follow, hta]
        exact hr
      · rintro ⟨pre, seg, post, items, hp, hr, hw⟩
        cases pre with
        | nil =>
          obtain ⟨rfl, rfl⟩ := cons.inj hp
          cases hr
          obtain ⟨e, hfa⟩ := hs.2 ⟨⟨items, rfl⟩, hw⟩
          rw [hfa] at hta
          cases hta
        | cons t pre =>
          obtain ⟨rfl, rfl⟩ := cons.inj hp
          rw [follow, hta] at hr
          exact ⟨pre, seg, post, items, rfl, hr, hw⟩

variable {path op : String} {ctx members : Members} {arg c d : Json} {e : String × Json}
  {items : List Json}

theorem exists_valueAt_error_iff : (∃ e, valueAt path ctx = .error e) ↔ Unreadable path ctx := by
  have hf : ∀ s ∈ Json.pathSegments path, s.isEmpty = false := by
    intro s hs
    simpa using (List.mem_filter.1 hs).2
  have hsa : (∃ e, valueAt path ctx = .error e) ↔ ∃ e, Json.lookup path ctx = .error e := by
    rw [valueAt]
    cases Json.lookup path ctx <;> simp [Except.mapError]
  rw [hsa, Json.lookup]
  unfold Unreadable
  cases hse : Json.pathSegments path with
  | nil => simp
  | cons root rest =>
    rw [hse] at hf
    refine (exists_follow_error_iff (fun s hs => hf s (List.mem_cons_of_mem _ hs)) _).trans ?_
    simp

theorem exists_valueAt_iff : (∃ v, valueAt path ctx = .ok v) ↔ ¬ Unreadable path ctx := by
  rw [← exists_valueAt_error_iff]
  cases valueAt path ctx <;> simp

/-! ## Maps of paths -/

/-- A path leads to the value that a map gives for it. -/
def Matches (context : Members) (e : String × Json) : Prop :=
  isBlankText e.1 = false ∧ ∃ v, valueAt e.1 context = .ok v ∧ same v e.2 = true

def equality (context : Members) (e : String × Json) : Outcome :=
  if isBlankText e.1 then .ok false
  else (valueAt e.1 context).map fun v => same v e.2

theorem equalities_eq_scan (context members : Members) :
    equalities context members = scan true (equality context) members := by
  induction members with
  | nil => rw [equalities, scan]
  | cons e rest ih =>
    obtain ⟨path, want⟩ := e
    rw [equalities, scan, equality, ih]
    by_cases hb : isBlankText path
    · simp [hb]
    · rw [if_neg hb, if_neg hb]
      cases valueAt path context with
      | error e => rfl
      | ok v => cases same : same v want <;> simp [Except.map, same]

theorem equality_eq_true_iff : equality ctx e = .ok true ↔ Matches ctx e := by
  unfold equality Matches
  cases valueAt e.1 ctx <;> cases isBlankText e.1 <;> simp [Except.map]

theorem exists_equality_iff : (∃ b, equality ctx e = .ok b) ↔
      (isBlankText e.1 = false → ¬ Unreadable e.1 ctx) := by
  rw [← exists_valueAt_iff]
  unfold equality
  cases valueAt e.1 ctx <;> cases isBlankText e.1 <;> simp [Except.map]

/-! ## What evaluation meets -/

/-- What keeps a condition of the right shape from having a truth value. -/
inductive Flaw (context : Members) : Json → Prop
  /-- A path of a map is unreadable, and the paths before it lead to the values given for them. -/
  | key {before after : Members} {path : String} {expected : Json}
      (plain : isOperator (before ++ (path, expected) :: after) = false)
      (matched : ∀ e ∈ before, Matches context e) (visible : isBlankText path = false)
      (wrong : Unreadable path context) : Flaw context (.obj (before ++ (path, expected) :: after))
  | blank {op path : String} {arg : Json} (named : operatorPath? op arg = some path)
      (wrong : isBlankText path = true) : Flaw context (.obj [(op, arg)])
  | unreadable {op path : String} {arg : Json} (named : operatorPath? op arg = some path)
      (wrong : Unreadable path context) : Flaw context (.obj [(op, arg)])
  | tooLarge {op path : String} {expected v : Json} (known : op ∈ orderOperators)
      (found : valueAt path context = .ok v) (wrong : TooLarge v expected) :
      Flaw context (.obj [(op, .arr [.str path, expected])])

/-- The conditions that are evaluated for a condition in the same context. -/
inductive Asks (context : Members) : Json → Json → Prop
  | item {before after : List Json} {c : Json} (passed : ∀ d ∈ before, eval d context = .ok true) :
      Asks context (.arr (before ++ c :: after)) c
  | part {op : String} {before after : List Json} {c : Json} (known : op ∈ ["$and", "$or"])
      (passed : ∀ d ∈ before, eval d context = .ok (op == "$and")) :
      Asks context (.obj [(op, .arr (before ++ c :: after))]) c
  | negated (c : Json) : Asks context (.obj [("$not", c)]) c

inductive AsksOf (context : Members) (v : Json) : Json → Json → Prop
  | item {op path : String} {inner : Members} {before after : List Json}
      (known : op ∈ itemOperators) (visible : isBlankText path = false)
      (found : valueAt path context = .ok (.arr (before ++ v :: after)))
      (passed : ∀ w ∈ before,
        eval (.obj inner) (Entries.put "item" w context) = .ok (op == "$all")) :
      AsksOf context v (.obj [(op, .arr [.str path, .obj inner])]) (.obj inner)

theorem sizeOf_lt_obj (op : String) (arg : Json) : sizeOf arg < sizeOf (obj [(op, arg)]) := by
  simp only [obj.sizeOf_spec, cons.sizeOf_spec, Prod.mk.sizeOf_spec]
  omega

theorem sizeOf_lt_arr (ha : c ∈ items) : sizeOf c < sizeOf (arr items) := by
  have hs := sizeOf_lt_of_mem ha
  simp only [arr.sizeOf_spec]
  omega

/-! ## One condition -/

theorem mem_of_operatorPath? (hn : operatorPath? op arg = some path) :
    op ∈ itemOperators ++ leafOperators := by
  unfold operatorPath? at hn
  split at hn
  · split_ifs at hn with known
    have hl : ∀ op ∈ "$exists" :: itemOperators ++ compareOperators,
        op ∈ itemOperators ++ leafOperators := by decide
    exact hl op (contains_iff_mem.1 known)
  · split_ifs at hn with known
    have hl : ∀ op ∈ ["$exists", "$truthy"], op ∈ itemOperators ++ leafOperators := by
      decide
    exact hl op (contains_iff_mem.1 known)
  · cases hn

theorem isOperator_of_operatorPath? (hn : operatorPath? op arg = some path) :
    isOperator [(op, arg)] := by
  exact isOperator_of_mem (mem_append_right _ (mem_of_operatorPath? hn)) arg

theorem operatorPath?_order (hk : op ∈ orderOperators) (path : String) (want : Json) :
    operatorPath? op (.arr [.str path, want]) = some path :=
  operatorPath?_pair (mem_append_right _ hk) path want

theorem flaw_operator_iff (ho : isOperator [(op, arg)]) :
    Flaw ctx (.obj [(op, arg)]) ↔ ∃ path, operatorPath? op arg = some path ∧
      (isBlankText path ∨ Unreadable path ctx ∨
        ∃ want v, op ∈ orderOperators ∧ arg = .arr [.str path, want] ∧
          valueAt path ctx = .ok v ∧ TooLarge v want) := by
  constructor
  · intro hfl
    generalize hs : obj [(op, arg)] = c at hfl
    cases hfl with
    | key hp hm hv hw =>
      rw [← obj.inj hs, ho] at hp
      cases hp
    | blank hn hw =>
      cases hs
      exact ⟨_, hn, .inl hw⟩
    | unreadable hn hw =>
      cases hs
      exact ⟨_, hn, .inr (.inl hw)⟩
    | tooLarge hk hf hw =>
      cases hs
      exact ⟨_, operatorPath?_order hk _ _, .inr (.inr ⟨_, _, hk, rfl, hf, hw⟩)⟩
  · rintro ⟨path, hn, hw | hw | ⟨want, v, hk, rfl, hf, hw⟩⟩
    · exact .blank hn hw
    · exact .unreadable hn hw
    · exact .tooLarge hk hf hw

theorem exists_eval_map_iff (plain : isOperator members = false) :
    (∃ b, eval (.obj members) ctx = .ok b) ↔ ¬ Flaw ctx (.obj members) := by
  have opened : eval (.obj members) ctx = scan true (equality ctx) members := by
    rw [eval_eq_opened, opened, plain]
    exact equalities_eq_scan ctx members
  rw [opened, exists_scan_iff]
  constructor
  · intro each flaw
    generalize same : obj members = c at flaw
    cases flaw with
    | key plain matched visible wrong =>
      cases same
      have comes := each _ _ _ rfl fun e he => equality_eq_true_iff.2 (matched e he)
      exact exists_equality_iff.1 comes visible wrong
    | blank named wrong =>
      cases same
      rw [isOperator_of_operatorPath? named] at plain
      cases plain
    | unreadable named wrong =>
      cases same
      rw [isOperator_of_operatorPath? named] at plain
      cases plain
    | tooLarge known found wrong =>
      cases same
      rw [isOperator_of_operatorPath? (operatorPath?_order known _ _)] at plain
      cases plain
  · rintro sound before ⟨path, expected⟩ after rfl passed
    refine exists_equality_iff.2 fun visible wrong => sound ?_
    exact .key plain (fun e he => equality_eq_true_iff.1 (passed e he)) visible wrong

theorem eq_of_operatorPath? {p v : Json} (hn : operatorPath? op (.arr [p, v]) = some path) :
    p = .str path := by
  cases p with
  | str s =>
    rw [operatorPath?] at hn
    split at hn
    · cases hn
      rfl
    · cases hn
  | _ => cases hn

/-- An operator that looks at the value at its path comes to a truth value unless it has a flaw or
its condition has none for an item that is asked. -/
theorem LooksAt.exists_eval_iff (hlo : LooksAt ctx op arg) :
    (∃ b, eval (.obj [(op, arg)]) ctx = .ok b) ↔ ¬ Flaw ctx (.obj [(op, arg)]) ∧
      ∀ v d, AsksOf ctx v (.obj [(op, arg)]) d → ∃ b, eval d (put "item" v ctx) = .ok b := by
  obtain ⟨path, complaint, ans, hn, hsh, ha⟩ := hlo
  rw [hsh, exists_atPath_iff, flaw_operator_iff (isOperator_of_operatorPath? hn), hn]
  constructor
  · rintro ⟨hv, v, hf, hd⟩
    have hfi := (ha v).1 hd
    refine ⟨?_, fun w d asks => ?_⟩
    · rintro ⟨_, ⟨⟩, hb | hu | ⟨want, w, ho, rfl, hf', hl⟩⟩
      · rw [hv] at hb
        cases hb
      · exact exists_valueAt_iff.1 ⟨v, hf⟩ hu
      · cases hf.symm.trans hf'
        exact hfi.order ho _ want rfl hl
    · cases asks with
      | item hk _ hf' hp =>
        cases eq_of_operatorPath? hn
        cases hf.symm.trans hf'
        exact exists_scan_iff.1 (hfi.items hk _ _ _ rfl rfl) _ w _ rfl hp
  · rintro ⟨hs, has⟩
    obtain ⟨v, hf⟩ := exists_valueAt_iff.2 fun hu =>
      hs ⟨path, rfl, .inr (.inl hu)⟩
    have hv : isBlankText path = false := Bool.eq_false_iff.2 fun hb => hs ⟨path, rfl, .inl hb⟩
    refine ⟨hv, v, hf, (ha v).2 ⟨?_, ?_⟩⟩
    · rintro ho p want rfl hl
      cases eq_of_operatorPath? hn
      exact hs ⟨path, rfl, .inr (.inr ⟨want, v, ho, rfl, hf, hl⟩)⟩
    · rintro one p mid items rfl rfl
      cases eq_of_operatorPath? hn
      refine exists_scan_iff.2 fun pre w post hpa hp => has w _ ?_
      rw [hpa] at hf
      exact .item one hv hf hp

theorem Misshapen.exists_obj (hw : Misshapen c) : ∃ members, c = .obj members := by
  obtain ⟨members, rfl, -⟩ := hw
  exact ⟨members, rfl⟩

theorem Flaw.exists_obj (hf : Flaw ctx c) : ∃ members, c = .obj members := by
  cases hf <;> exact ⟨_, rfl⟩

theorem AsksOf.exists_obj {c v : Json} (ha : AsksOf ctx v c d) :
    ∃ members, c = .obj members ∧ isOperator members := by
  cases ha with
  | item hk _ _ _ =>
    have hl : ∀ op ∈ itemOperators, op ∈ operators := by decide
    exact ⟨_, rfl, isOperator_of_mem (hl _ hk) _⟩

theorem Asks.exists_parts {c : Json} (ha : Asks ctx c d) :
    (∃ pre post, c = .arr (pre ++ d :: post) ∧ ∀ e ∈ pre, eval e ctx = .ok true) ∨
    (∃ op pre post, op ∈ ["$and", "$or"] ∧ c = .obj [(op, .arr (pre ++ d :: post))] ∧
      ∀ e ∈ pre, eval e ctx = .ok (op == "$and")) ∨
    c = .obj [("$not", d)] := by
  cases ha with
  | item hp => exact .inl ⟨_, _, rfl, hp⟩
  | part hk hp => exact .inr (.inl ⟨_, _, _, hk, rfl, hp⟩)
  | negated => exact .inr (.inr rfl)

theorem Asks.isOperator (ha : Asks ctx (.obj members) d) : isOperator members := by
  have hl : ∀ op ∈ ["$and", "$or"], op ∈ operators := by decide
  rcases ha.exists_parts with ⟨_, _, hs, -⟩ | ⟨op, _, _, hk, hs, -⟩ | hs <;> cases hs
  · exact isOperator_of_mem (hl op hk) _
  · exact isOperator_of_mem (by decide) _

theorem exists_eval_several_iff (hk : op ∈ ["$and", "$or"]) :
    (∃ b, eval (.obj [(op, .arr items)]) ctx = .ok b) ↔
      ∀ d, Asks ctx (.obj [(op, .arr items)]) d → ∃ b, eval d ctx = .ok b := by
  rw [eval_several hk, exists_scan_iff]
  constructor
  · intro he d has
    rcases has.exists_parts with ⟨_, _, hs, -⟩ | ⟨op, pre, post, -, hs, hp⟩ | hs <;> cases hs
    · exact he pre d post rfl hp
    · exact absurd hk (by decide)
  · rintro ha pre d post rfl hp
    exact ha d (.part hk hp)

theorem exists_eval_not_iff : (∃ b, eval (.obj [("$not", c)]) ctx = .ok b) ↔
      ∀ d, Asks ctx (.obj [("$not", c)]) d → ∃ b, eval d ctx = .ok b := by
  have hi : (∃ b, eval (.obj [("$not", c)]) ctx = .ok b) ↔ ∃ b, eval c ctx = .ok b := by
    rw [eval_not]
    cases eval c ctx <;> simp [Except.map]
  rw [hi]
  constructor
  · intro hd d has
    rcases has.exists_parts with ⟨_, _, hs, -⟩ | ⟨op, _, _, hk, hs, -⟩ | hs <;> cases hs
    · exact absurd hk (by decide)
    · exact hd
  · intro ha
    exact ha c (.negated c)

theorem not_flaw_of_not_path (hk : op ∈ ["$and", "$or", "$not"]) : ¬ Flaw ctx (.obj [(op, arg)]) := by
  have hl : ∀ op ∈ ["$and", "$or", "$not"], op ∉ itemOperators ++ leafOperators := by
    decide
  have ho : isOperator [(op, arg)] := isOperator_of_mem (mem_append_left _ hk) arg
  rw [flaw_operator_iff ho]
  rintro ⟨path, hn, -⟩
  exact hl op hk (mem_of_operatorPath? hn)

theorem not_asksOf {arg v : Json} (ho : op ∉ itemOperators) : ¬ AsksOf ctx v (.obj [(op, arg)]) d := by
  intro ha
  cases ha with
  | item hk _ _ _ => exact ho hk

theorem not_asks {arg : Json} (ho : op ∉ ["$and", "$or", "$not"]) : ¬ Asks ctx (.obj [(op, arg)]) d := by
  have hl : ∀ op ∈ ["$and", "$or"], op ∈ ["$and", "$or", "$not"] := by decide
  intro ha
  rcases ha.exists_parts with ⟨_, _, hs, -⟩ | ⟨op, _, _, hk, hs, -⟩ | hs <;> cases hs
  · exact ho (hl _ hk)
  · exact ho (by decide)

theorem Shaped.kinds (hs : Shaped op arg) :
    (op ∈ ["$and", "$or"] ∧ ∃ items, arg = .arr items) ∨ op = "$not" ∨
      op ∈ itemOperators ++ leafOperators := by
  cases hs with
  | several hk items => exact .inl ⟨hk, items, rfl⟩
  | negation c => exact .inr (.inl rfl)
  | items hk path mid => exact .inr (.inr (mem_append_left _ hk))
  | found path | foundAs path wanted | truthy path | among path vs =>
    exact .inr (.inr (by decide))
  | compared hk path want =>
    have hl : ∀ op ∈ ["$eq", "$ne", "$contains"] ++ orderOperators,
        op ∈ itemOperators ++ leafOperators := by
      decide
    exact .inr (.inr (hl _ hk))
  | text hk path s =>
    have hl : ∀ op ∈ ["$startsWith", "$endsWith", "$regex"], op ∈ itemOperators ++ leafOperators := by
      decide
    exact .inr (.inr (hl _ hk))

theorem exists_eval_shaped_iff (hsh : Shaped op arg) (hr : PatternReads (.obj [(op, arg)])) :
    (∃ b, eval (.obj [(op, arg)]) ctx = .ok b) ↔ ¬ Flaw ctx (.obj [(op, arg)]) ∧
      (∀ d, Asks ctx (.obj [(op, arg)]) d → ∃ b, eval d ctx = .ok b) ∧
      ∀ v d, AsksOf ctx v (.obj [(op, arg)]) d → ∃ b, eval d (put "item" v ctx) = .ok b := by
  have ha (op : String) (arg : Json) (hk : op ∈ ["$and", "$or", "$not"]) :
      ¬ Flaw ctx (.obj [(op, arg)]) ∧ ∀ v d, ¬ AsksOf ctx v (.obj [(op, arg)]) d := by
    have hno : ∀ op ∈ ["$and", "$or", "$not"], op ∉ itemOperators := by decide
    exact ⟨not_flaw_of_not_path hk, fun v d => not_asksOf (hno op hk)⟩
  rcases hsh.kinds with ⟨hk, items, rfl⟩ | rfl | hk
  · have hse : ∀ op ∈ ["$and", "$or"], op ∈ ["$and", "$or", "$not"] := by decide
    obtain ⟨hs, hn⟩ := ha op (.arr items) (hse op hk)
    rw [exists_eval_several_iff hk]
    exact ⟨fun h => ⟨hs, h, fun v d has => absurd has (hn v d)⟩, fun h => h.2.1⟩
  · obtain ⟨hs, hn⟩ := ha "$not" arg (by decide)
    rw [exists_eval_not_iff]
    exact ⟨fun h => ⟨hs, h, fun v d has => absurd has (hn v d)⟩, fun h => h.2.1⟩
  · have hnot : ∀ op ∈ itemOperators ++ leafOperators, op ∉ ["$and", "$or", "$not"] := by
      decide
    refine (hsh.looksAt hk hr).exists_eval_iff.trans (and_congr_right fun _ => ?_)
    exact ⟨fun h => ⟨fun d has => absurd has (not_asks (hnot op hk)), h⟩, fun h => h.2⟩

theorem not_misshapen_of_eval {b : Bool} (hd : eval (.obj members) ctx = .ok b) :
    ¬ Misshapen (.obj members) := by
  rintro ⟨ms, hs, ho, hw⟩
  cases hs
  rcases members with _ | ⟨⟨op, arg⟩, _ | ⟨e, rest⟩⟩
  · cases ho
  · exact hw ⟨op, arg, rfl, shaped_of_eval ho hd⟩
  · rw [eval_eq_opened, opened, ho] at hd
    cases hd

/-- A condition comes to a truth value exactly if it has the right shape and no flaw, and the
conditions come to truth values that are evaluated for it. -/
theorem exists_eval_iff (reads : PatternReads c) :
    (∃ b, eval c ctx = .ok b) ↔ ¬ Misshapen c ∧ ¬ Flaw ctx c ∧
      (∀ d, Asks ctx c d → ∃ b, eval d ctx = .ok b) ∧
      ∀ v d, AsksOf ctx v c d → ∃ b, eval d (put "item" v ctx) = .ok b := by
  by_cases object : ∃ members, c = .obj members
  · obtain ⟨members, rfl⟩ := object
    by_cases misshapen : Misshapen (.obj members)
    · refine iff_of_false ?_ fun h => h.1 misshapen
      rintro ⟨b, done⟩
      exact not_misshapen_of_eval done misshapen
    · simp only [misshapen, not_false_eq_true, true_and]
      cases operator : isOperator members with
      | false =>
        rw [exists_eval_map_iff operator]
        refine ⟨fun sound => ⟨sound, fun d asks => ?_, fun v d asks => ?_⟩, fun h => h.1⟩
        · rw [asks.isOperator] at operator
          cases operator
        · obtain ⟨ms, same, other⟩ := asks.exists_obj
          cases same
          rw [other] at operator
          cases operator
      | true =>
        have one : ∃ op arg, members = [(op, arg)] ∧ Shaped op arg := by
          by_contra wrong
          exact misshapen ⟨members, rfl, operator, wrong⟩
        obtain ⟨op, arg, rfl, shaped⟩ := one
        exact exists_eval_shaped_iff shaped reads
  · have notMisshapen : ¬ Misshapen c := fun wrong => object wrong.exists_obj
    have notFlaw : ¬ Flaw ctx c := fun flaw => object flaw.exists_obj
    have notAsksOf (v d : Json) (asks : AsksOf ctx v c d) : False := by
      obtain ⟨members, same, -⟩ := asks.exists_obj
      exact object ⟨members, same⟩
    cases c with
    | obj members => exact absurd ⟨members, rfl⟩ object
    | arr items =>
      have opened : eval (.arr items) ctx = scan true (eval · ctx) items := by
        rw [eval_eq_opened, opened]
      rw [opened, exists_scan_iff]
      constructor
      · intro each
        refine ⟨notMisshapen, notFlaw, fun d asks => ?_, fun v d asks => (notAsksOf v d asks).elim⟩
        rcases asks.exists_parts with ⟨before, after, same, passed⟩ | ⟨_, _, _, -, same, -⟩ | same
        · cases same
          exact each before d after rfl passed
        · cases same
        · cases same
      · rintro ⟨-, -, asked, -⟩ before d after rfl passed
        exact asked d (.item passed)
    | _ =>
      refine iff_of_true ⟨_, eval_eq_opened _ ctx⟩
        ⟨notMisshapen, notFlaw, fun d asks => ?_, fun v d asks => (notAsksOf v d asks).elim⟩
      cases asks

end Appwright.Condition
