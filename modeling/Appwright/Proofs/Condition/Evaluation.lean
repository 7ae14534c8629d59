import Appwright.Proofs.Condition.Flaws

/-!
# Accepted conditions and their evaluation

The form of a condition is checked before there is any data. What the check accepts has the right
shape wherever it looks, which is everywhere but inside the operators on items. It also lets blank
paths pass, and it cannot know positions and numbers that are too large. So an accepted condition
has a truth value exactly if the evaluation meets none of these (`accepted_evaluates_iff`).
-/

namespace Appwright.Condition

open Json Entries

/-! ## All conditions on the way -/

/-- The conditions that are evaluated on the way, each with its context, and whether they stand
inside an operator on items. -/
inductive Reaches : Bool → Json → Members → Json → Members → Prop
  | here (c : Json) (context : Members) : Reaches false c context c context
  | down {inside : Bool} {c d e : Json} {context later : Members} (asks : Asks context c d)
      (more : Reaches inside d context e later) : Reaches inside c context e later
  | into {inside : Bool} {c d e v : Json} {context later : Members}
      (asks : AsksOf context v c d)
      (more : Reaches inside d (Entries.put "item" v context) e later) :
      Reaches true c context e later

/-- The conditions that a condition is made of, at any depth. -/
inductive Inside : Json → Json → Prop
  | here (c : Json) : Inside c c
  | item {items : List Json} {c d : Json} (among : c ∈ items) (more : Inside c d) :
      Inside (.arr items) d
  | part {op : String} {items : List Json} {c d : Json} (known : op ∈ ["$and", "$or"])
      (among : c ∈ items) (more : Inside c d) : Inside (.obj [(op, .arr items)]) d
  | negated {c d : Json} (more : Inside c d) : Inside (.obj [("$not", c)]) d
  | ofItem {op path : String} {inner : Members} {d : Json} (known : op ∈ itemOperators)
      (more : Inside (.obj inner) d) : Inside (.obj [(op, .arr [.str path, .obj inner])]) d

variable {c d v arg w : Json} {ctx : Members} {op path : String}

theorem Asks.inside {e : Json} (ha : Asks ctx c d) (hm : Inside d e) : Inside c e := by
  cases ha with
  | item hp => exact .item (by simp) hm
  | part hk hp => exact .part hk (by simp) hm
  | negated => exact .negated hm

theorem AsksOf.inside {e v : Json} (ha : AsksOf ctx v c d) (hm : Inside d e) : Inside c e := by
  cases ha with
  | item hk _ _ _ => exact .ofItem hk hm

theorem Asks.sizeOf_lt (ha : Asks ctx c d) : sizeOf d < sizeOf c := by
  cases ha with
  | item hp => exact sizeOf_lt_arr (by simp)
  | part hk hp => exact Nat.lt_trans (sizeOf_lt_arr (by simp)) (sizeOf_lt_obj _ _)
  | negated => exact sizeOf_lt_obj _ _

theorem AsksOf.sizeOf_lt (ha : AsksOf ctx v c d) : sizeOf d < sizeOf c := by
  cases ha with
  | item hk _ _ _ => exact Nat.lt_trans (sizeOf_lt_arr (by simp)) (sizeOf_lt_obj _ _)

theorem Reaches.sound {inside : Bool} {later : Members}
    (hr : Reaches inside c ctx d later) (hp : ∀ e, Inside c e → PatternReads e)
    (hd : ∃ b, eval c ctx = .ok b) : ¬ Misshapen d ∧ ¬ Flaw later d := by
  induction hr with
  | here c ctx =>
    have hn := (exists_eval_iff (hp c (.here c))).1 hd
    exact ⟨hn.1, hn.2.1⟩
  | down ha hm ih =>
    have hn := (exists_eval_iff (hp _ (.here _))).1 hd
    exact ih (fun e hi => hp e (ha.inside hi)) (hn.2.2.1 _ ha)
  | into ha hm ih =>
    have hn := (exists_eval_iff (hp _ (.here _))).1 hd
    exact ih (fun e hi => hp e (ha.inside hi)) (hn.2.2.2 _ _ ha)

theorem exists_eval_of_reaches (c : Json) (context : Members) (hp : ∀ e, Inside c e → PatternReads e)
    (hs : ∀ inside d later, Reaches inside c context d later → ¬ Misshapen d ∧ ¬ Flaw later d) :
    ∃ b, eval c context = .ok b := by
  have here := hs false c context (.here c context)
  refine (exists_eval_iff (hp c (.here c))).2 ⟨here.1, here.2, ?_, ?_⟩
  · intro d ha
    exact exists_eval_of_reaches d context (fun e hi => hp e (ha.inside hi))
      fun inside e later hm => hs inside e later (.down ha hm)
  · intro v d ha
    exact exists_eval_of_reaches d _ (fun e hi => hp e (ha.inside hi))
      fun inside e later hm => hs true e later (.into ha hm)
termination_by sizeOf c
decreasing_by
  · exact ha.sizeOf_lt
  · exact ha.sizeOf_lt

/-! ## Conditions of the right form -/

theorem checkForm_of_mem {xs : List Json} (hc : checkForms xs = .ok ())
    (ha : c ∈ xs) : checkForm c = .ok () := by
  induction xs with
  | nil => cases ha
  | cons d ds ih =>
    rw [checkForms] at hc
    obtain ⟨_, first, hr⟩ := of_bind_ok hc
    rcases List.mem_cons.1 ha with rfl | ha
    · exact first
    · exact ih hr ha

theorem of_isPath (path : isPath v) : ∃ s, v = .str s := by
  cases v with
  | str s => exact ⟨s, rfl⟩
  | _ => cases path

theorem of_checkPath {e : FormError}
    (hc : (if isPath v then Except.ok () else .error e) = .ok ()) : ∃ s, v = .str s := by
  split at hc
  next path => exact of_isPath path
  next => cases hc

theorem shaped_of_checkPair (hk : op ∈ pairOperators) (hc : checkPair op arg = .ok ()) : Shaped op arg := by
  unfold checkPair at hc
  split at hc
  next path v =>
    split at hc
    next => cases hc
    next hi =>
      obtain ⟨p, rfl⟩ := of_isPath (by simpa using hi)
      have hki : ∀ op ∈ pairOperators, op ∈ ["$eq", "$ne", "$contains"] ++ orderOperators ∨ op = "$in" ∨
            op ∈ ["$startsWith", "$endsWith", "$regex"] ∨ op ∈ itemOperators := by
        decide
      rcases hki op hk with hk | rfl | hk | hk
      · exact .compared hk p v
      · cases v with
        | arr vs => exact .among p vs
        | _ => cases hc
      · obtain ⟨s, rfl⟩ : ∃ s, v = .str s := by
          fin_cases hk
          all_goals cases v with
            | str s => exact ⟨s, rfl⟩
            | _ => cases hc
        exact .text hk p s
      · obtain ⟨mid, rfl⟩ : ∃ mid, v = .obj mid := by
          fin_cases hk
          all_goals cases v with
            | obj mid => exact ⟨mid, rfl⟩
            | _ => cases hc
        exact .items hk p mid
  next => cases hc

theorem shaped_of_checkLeaf (hc : checkLeaf op arg = .ok ()) : Shaped op arg := by
  unfold checkLeaf at hc
  split at hc
  next hk => exact shaped_of_checkPair (List.contains_iff_mem.1 hk) hc
  split at hc
  next hs =>
    obtain rfl := eq_of_beq hs
    split at hc
    next path b =>
      obtain ⟨p, rfl⟩ := of_checkPath hc
      exact .foundAs p (.bool b)
    next =>
      obtain ⟨p, rfl⟩ := of_checkPath hc
      exact .found p
  split at hc
  next hs =>
    obtain rfl := eq_of_beq hs
    obtain ⟨p, rfl⟩ := of_checkPath hc
    exact .truthy p
  next => cases hc

theorem checkForm_operator (ho : isOperator [(op, arg)])
    (hc : checkForm (.obj [(op, arg)]) = .ok ()) :
    (op ∈ ["$and", "$or"] ∧ ∃ xs, arg = .arr xs ∧ checkForms xs = .ok ()) ∨
    (op = "$not" ∧ checkForm arg = .ok ()) ∨
    (op ∉ ["$and", "$or", "$not"] ∧ checkLeaf op arg = .ok ()) := by
  rw [checkForm.eq_def] at hc
  dsimp only at hc
  rw [ho] at hc
  simp only [Bool.not_true, Bool.false_eq_true, if_false] at hc
  split at hc
  next hk =>
    refine .inl ⟨by simpa using hk, ?_⟩
    split at hc
    next c cs => exact ⟨c :: cs, rfl, by rw [checkForms]; exact hc⟩
    next => cases hc
  next hot =>
    split at hc
    next hs => exact .inr (.inl ⟨eq_of_beq hs, hc⟩)
    next hu =>
      have hn : op ∉ ["$and", "$or", "$not"] := by
        simpa [not_or, and_assoc] using And.intro hot hu
      exact .inr (.inr ⟨hn, hc⟩)

theorem shaped_of_checkForm (ho : isOperator [(op, arg)])
    (hc : checkForm (.obj [(op, arg)]) = .ok ()) : Shaped op arg := by
  rcases checkForm_operator ho hc with ⟨hk, xs, rfl, -⟩ | ⟨rfl, -⟩ | ⟨-, hl⟩
  · exact .several hk xs
  · exact .negation arg
  · exact shaped_of_checkLeaf hl

theorem not_misshapen_of_checkForm (hc : checkForm c = .ok ()) : ¬ Misshapen c := by
  rintro ⟨ms, rfl, ho, hw⟩
  rcases ms with _ | ⟨⟨op, arg⟩, _ | ⟨e, rest⟩⟩
  · cases ho
  · exact hw ⟨op, arg, rfl, shaped_of_checkForm ho hc⟩
  · rw [checkForm.eq_def] at hc
    dsimp only at hc
    rw [ho] at hc
    cases hc

theorem Asks.checkForm (ha : Asks ctx c d) (hc : checkForm c = .ok ()) : checkForm d = .ok () := by
  have hp : ∀ op ∈ ["$and", "$or"], op ≠ "$not" ∧ op ∈ ["$and", "$or", "$not"] := by
    decide
  rcases ha.exists_parts with ⟨_, _, rfl, -⟩ | ⟨op, pre, post, hk, rfl, -⟩ | rfl
  · rw [Condition.checkForm] at hc
    exact checkForm_of_mem hc (by simp)
  · rcases checkForm_operator ha.isOperator hc with
      ⟨-, xs, hs, all⟩ | ⟨hs, -⟩ | ⟨ho, -⟩
    · cases hs
      exact checkForm_of_mem all (by simp)
    · exact absurd hs (hp op hk).1
    · exact absurd (hp op hk).2 ho
  · rcases checkForm_operator ha.isOperator hc with ⟨hk, -⟩ | ⟨-, hi⟩ | ⟨ho, -⟩
    · exact absurd hk (by decide)
    · exact hi
    · exact absurd (by decide) ho

theorem Reaches.checkForm {later : Members} (hr : Reaches false c ctx d later)
    (hc : checkForm c = .ok ()) : checkForm d = .ok () := by
  generalize ho : false = inside at hr
  induction hr with
  | here c ctx => exact hc
  | down ha hm ih => exact ih (ha.checkForm hc) ho
  | into ha hm ih => cases ho

/-! ## Conditions that always have a truth value -/

/-- A value whose whole numbers are all within the range of floats. -/
inductive Small : Json → Prop
  | null : Small .null
  | bool (b : Bool) : Small (.bool b)
  | int {n : Int} (near : Decimal.ofInt? n ≠ none) : Small (.int n)
  | float (x : Float) : Small (.float x)
  | str (s : String) : Small (.str s)
  | arr {items : List Json} (each : ∀ v ∈ items, Small v) : Small (.arr items)
  | obj {members : Members} (each : ∀ e ∈ members, Small e.2) : Small (.obj members)

theorem not_tooLarge (left : Small v) (right : Small w) : ¬ TooLarge v w := by
  have hf {v : Json} (hsm : Small v) : number? v ≠ some (.error .tooLarge) := by
    cases hsm with
    | @int n hn =>
      cases float : Decimal.ofInt? n with
      | none => exact absurd float hn
      | some x => simp [number?, float]
    | _ => simp [number?]
  rintro ⟨x, y, first, hs, rfl | rfl⟩
  · exact hf left first
  · exact hf right hs

theorem small_get? {ms : Members} (hs : ∀ e ∈ ms, Small e.2) (name : String) :
    Small ((get? name ms).getD .null) := by
  cases hf : get? name ms with
  | none => exact .null
  | some v => exact hs _ (mem_of_get? hf)

theorem small_of_step {seg : String} (hs : Small v) (ht : step v seg = .ok w) : Small w := by
  cases hs with
  | @obj ms he =>
    cases ht
    exact small_get? he seg
  | @arr xs he =>
    rw [step] at ht
    split at ht
    next =>
      split at ht
      next n _ =>
        cases ht
        cases hf : xs[n.toNat]? with
        | none => simpa [hf] using Small.null
        | some u => simpa [hf] using he u (List.mem_of_getElem? hf)
      next => cases ht
    next =>
      cases ht
      exact .null
  | _ =>
    cases ht
    exact .null

theorem small_of_follow {segs : List String} (hs : Small v) (hr : follow v segs = .ok w) : Small w := by
  induction segs generalizing v with
  | nil =>
    cases hr
    exact hs
  | cons s rest ih =>
    rw [follow] at hr
    cases ht : step v s with
    | error e => simp [ht] at hr
    | ok u =>
      rw [ht] at hr
      exact ih (small_of_step hs ht) hr

theorem small_of_valueAt (hs : ∀ e ∈ ctx, Small e.2) (hf : valueAt path ctx = .ok v) : Small v := by
  have hl : lookup path ctx = .ok v := by
    rw [valueAt] at hf
    cases run : lookup path ctx with
    | error e => simp [run, Except.mapError] at hf
    | ok w => simpa [run, Except.mapError] using hf
  rw [lookup] at hl
  split at hl
  next =>
    cases hl
    exact .null
  next root rest _ => exact small_of_follow (small_get? hs root) hl

def Readable (path : String) : Prop :=
  ∀ s ∈ pathSegments path, s.toList.all Text.isDigit = true → ∃ n, Decimal.readInt s = .ok n

theorem Readable.not_unreadable (hr : Readable path) (context : Members) : ¬ Unreadable path context := by
  rintro ⟨root, pre, seg, post, xs, hs, -, hd, hu⟩
  exact hu (hr seg (by rw [hs]; simp) hd)

/-- A condition of the right form whose paths are not blank and can be read, and which compares with
no number beyond the range of floats. -/
structure Sturdy (c : Json) : Prop where
  form : checkForm c = .ok ()
  paths : ∀ op arg path, c = .obj [(op, arg)] → operatorPath? op arg = some path →
    Text.isBlankText path = false ∧ Readable path
  keys : ∀ members, c = .obj members → ∀ e ∈ members, Readable e.1
  numbers : ∀ op path expected, c = .obj [(op, .arr [.str path, expected])] →
    op ∈ orderOperators → Small expected

theorem Sturdy.not_flaw (hs : Sturdy c) (hsm : ∀ e ∈ ctx, Small e.2) : ¬ Flaw ctx c := by
  intro hfl
  cases hfl with
  | @key pre post path want hp hm hv hw =>
    have hr : Readable path := hs.keys _ rfl (path, want) (by simp)
    exact hr.not_unreadable ctx hw
  | blank hn hw =>
    rw [(hs.paths _ _ _ rfl hn).1] at hw
    cases hw
  | unreadable hn hw =>
    exact (hs.paths _ _ _ rfl hn).2.not_unreadable ctx hw
  | tooLarge hk hf hw =>
    exact not_tooLarge (small_of_valueAt hsm hf) (hs.numbers _ _ _ rfl hk) hw

theorem Reaches.inside {inside : Bool} {later : Members}
    (hr : Reaches inside c ctx d later) : Inside c d := by
  induction hr with
  | here c ctx => exact .here c
  | down ha hm ih => exact ha.inside ih
  | into ha hm ih => exact ha.inside ih

theorem Reaches.small {inside : Bool} {later : Members}
    (hr : Reaches inside c ctx d later) (small : ∀ e ∈ ctx, Small e.2) : ∀ e ∈ later, Small e.2 := by
  induction hr with
  | here c ctx => exact small
  | down ha hm ih => exact ih small
  | into ha hm ih =>
    refine ih fun e he => ?_
    cases ha with
    | item hk hv hf hp =>
      rcases mem_of_mem_put he with rfl | he
      · cases small_of_valueAt small hf with
        | arr hea => exact hea _ (by simp)
      · exact small e he

/-- A condition of the right form comes to a truth value exactly if nothing that is evaluated on the
way has a flaw, and what is evaluated for items has the right shape, since the form is not checked
there. No flaw is met, whatever the data, by a condition that is sturdy throughout. -/
theorem accepted_evaluates_iff (c : Json) (context : Json.Members)
    (accepted : checkForm c = .ok ()) (patterns : ∀ d, Inside c d → PatternReads d) :
    ((∃ b, eval c context = .ok b) ↔
      ∀ inside d later, Reaches inside c context d later →
        ¬ Flaw later d ∧ (inside = true → ¬ Misshapen d)) ∧
    ((∀ d, Inside c d → Sturdy d) → (∀ e ∈ context, Small e.2) → ∃ b, eval c context = .ok b) := by
  refine ⟨⟨?_, ?_⟩, ?_⟩
  · intro done inside d later reaches
    have sound := reaches.sound patterns done
    exact ⟨sound.2, fun _ => sound.1⟩
  · intro sound
    refine exists_eval_of_reaches c context patterns fun inside d later reaches => ?_
    refine ⟨?_, (sound inside d later reaches).1⟩
    cases inside with
    | false => exact not_misshapen_of_checkForm (reaches.checkForm accepted)
    | true => exact (sound true d later reaches).2 rfl
  · intro sturdy small
    refine exists_eval_of_reaches c context patterns fun inside d later reaches => ?_
    have one := sturdy d reaches.inside
    exact ⟨not_misshapen_of_checkForm one.form, one.not_flaw (reaches.small small)⟩

def redTag : Json :=
  .obj [("$any", .arr [.str "row.tags", .obj [("$eq", .arr [.str "item", .str "red"])]])]

def taggedRow : Members :=
  [("row", .obj [("tags", .arr [.str "blue", .str "red"])])]

theorem readable_of_words (hw : (pathSegments path).all (fun s => !s.toList.all Text.isDigit)) :
    Readable path := by
  intro s hs hd
  have hwo : (!s.toList.all Text.isDigit) := List.all_eq_true.1 hw s hs
  rw [hd] at hwo
  cases hwo

theorem inside_operator (ho : op ∉ ["$and", "$or", "$not"]) (hi : Inside (.obj [(op, arg)]) d) :
    d = .obj [(op, arg)] ∨ ∃ path mid, arg = .arr [.str path, .obj mid] ∧ Inside (.obj mid) d := by
  have hs : ∀ op ∈ ["$and", "$or"], op ∈ ["$and", "$or", "$not"] := by decide
  generalize hsa : obj [(op, arg)] = c at hi
  cases hi with
  | here => exact .inl rfl
  | item => cases hsa
  | part hk =>
    cases hsa
    exact absurd (hs op hk) ho
  | negated =>
    cases hsa
    exact absurd (by decide) ho
  | ofItem hk hm =>
    cases hsa
    exact .inr ⟨_, _, rfl, hm⟩

theorem inside_redTag (hi : Inside redTag d) :
    d = redTag ∨ d = .obj [("$eq", .arr [.str "item", .str "red"])] := by
  rcases inside_operator (by decide) hi with rfl | ⟨_, _, hs, hm⟩
  · exact .inl rfl
  · simp only [arr.injEq, List.cons.injEq, str.injEq, obj.injEq, and_true] at hs
    obtain ⟨rfl, rfl⟩ := hs
    rcases inside_operator (by decide) hm with rfl | ⟨_, _, hs, -⟩
    · exact .inr rfl
    · simp at hs

theorem sturdy_of_pair (hf : checkForm (.obj [(op, .arr [.str path, v])]) = .ok ())
    (hr : ∀ name ∈ [op, path], Readable name) (hv : Text.isBlankText path = false)
    (hu : op ∉ orderOperators) : Sturdy (.obj [(op, .arr [.str path, v])]) := by
  refine ⟨hf, ?_, ?_, ?_⟩
  · rintro op arg path' hs hn
    cases hs
    cases eq_of_operatorPath? hn
    exact ⟨hv, hr _ (by simp)⟩
  · rintro ms hs e he
    cases hs
    obtain rfl := List.mem_singleton.1 he
    exact hr op (by simp)
  · rintro op path want hs hk
    cases hs
    exact absurd hk hu

theorem redTag_evaluates :
    checkForm redTag = .ok () ∧ (∀ e ∈ taggedRow, Small e.2) ∧
      ∃ b, eval redTag taggedRow = .ok b := by
  have patterns (d : Json) (inside : Inside redTag d) : PatternReads d := by
    rintro path s rfl
    rcases inside_redTag inside with same | same <;> simp [redTag] at same
  have accepted : checkForm redTag = .ok () := by decide +kernel
  have small : ∀ e ∈ taggedRow, Small e.2 := by
    simp only [taggedRow, List.mem_singleton, forall_eq]
    refine .obj fun e he => ?_
    obtain rfl := List.mem_singleton.1 he
    refine .arr fun v hv => ?_
    fin_cases hv
    · exact .str "blue"
    · exact .str "red"
  have readable : ∀ name ∈ ["$any", "row.tags", "$eq", "item"], Readable name := by
    have words : ∀ name ∈ ["$any", "row.tags", "$eq", "item"],
        (Json.pathSegments name).all (fun s => !s.toList.all Text.isDigit) = true := by
      decide +kernel
    exact fun name named => readable_of_words (words name named)
  have sturdy (d : Json) (inside : Inside redTag d) : Sturdy d := by
    rcases inside_redTag inside with rfl | rfl
    · exact sturdy_of_pair accepted (fun name named => readable name (by revert name; decide))
        (by decide +kernel) (by decide)
    · exact sturdy_of_pair (by decide +kernel)
        (fun name named => readable name (by revert name; decide)) (by decide +kernel) (by decide)
  have evaluates := (accepted_evaluates_iff redTag taggedRow accepted patterns).2 sturdy small
  exact ⟨accepted, small, evaluates⟩

/-- The value at a blank path is either true or not. -/
def blankOrNot : Json :=
  .obj [("$or", .arr [.obj [("$truthy", .str " ")],
    .obj [("$not", .obj [("$truthy", .str " ")])]])]

/-- A blank path passes for one that is not empty, and is refused when it is looked up. -/
theorem blankOrNot_fails :
    checkForm blankOrNot = .ok () ∧ ∀ context, eval blankOrNot context = .error .truthyPath := by
  refine ⟨by decide +kernel, fun context => ?_⟩
  have blank : eval (.obj [("$truthy", .str " ")]) context = .error .truthyPath := by
    rw [eval_truthy]
    rfl
  rw [blankOrNot, eval_several (by decide)]
  simp [scan, blank]

end Appwright.Condition
