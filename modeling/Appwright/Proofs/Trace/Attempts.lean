import Appwright.Proofs.Entries
import Appwright.Proofs.Run
import Appwright.Trace.Step

/-!
# Failed attempts

`FailedAttempts x s es` follows the run of `x` from `s` through everything that programs are built
with, and collects the failures of the attempts made on the way. A program is `Tracked` if each of
its runs can be followed. Programs that leave the report alone are, messages are, and steps are if
their functions are.

The report of a run grows by a block with one unclosed start for each of the failures that cannot be
told.
-/

namespace Appwright.Trace

open List Entries Event

/-! ## Starts and ends

In a report the starts and the ends of attempts stand like brackets. An end is missing if the attempt
failed and its failure cannot be told. A run adds a `Block` to the report, whose brackets are closed
properly exactly if no end is missing.
-/

variable {τ α β γ ε : Type}

/-! ## Brackets -/

def Note.plain? : Note α → Option Json
  | .plain v => some v
  | .given _ => none

def Event.plain? (name : String) (e : Event α) : Option Json :=
  (get? name e).bind Note.plain?

def Event.kind? (e : Event α) : Option String :=
  match plain? "kind" e with
  | some (.str kind) => some kind
  | _ => none

inductive Mark where
  | opening (step : String) (attempt : Int)
  | closing (step : String) (attempt : Int)
deriving DecidableEq, Repr

def Mark.isOpening : Mark → Bool
  | opening _ _ => true
  | closing _ _ => false

def Event.mark? (e : Event α) : Option Mark :=
  match plain? "step" e, plain? "attempt" e with
  | some (.str step), some (.int n) =>
    if kind? e = some "step_start" then some (.opening step n)
    else if kind? e = some "step_end" then some (.closing step n)
    else none
  | _, _ => none

def Report.marks (r : Report α) : List Mark :=
  r.events.filterMap mark?

def Report.ends (r : Report α) : List (Event α) :=
  r.events.filter fun e => kind? e = some "step_end"

/-- Each opening bracket is closed by one for the same attempt, and what stands between the two is
closed in the same way. -/
inductive Nested : List Mark → Prop
  | nil : Nested []
  | around {step : String} {attempt : Int} {inner rest : List Mark} (within : Nested inner)
    (after : Nested rest) :
    Nested (.opening step attempt :: inner ++ .closing step attempt :: rest)

theorem Nested.append {xs ys : List Mark} (hx : Nested xs) (hy : Nested ys) : Nested (xs ++ ys) := by
  induction hx with
  | nil => exact hy
  | around hw _ _ ih =>
    rw [append_assoc, cons_append, cons_append]
    exact .around hw ih

theorem Nested.countP_isOpening {xs : List Mark} (h : Nested xs) :
    2 * xs.countP Mark.isOpening = xs.length := by
  induction h with
  | nil => rfl
  | around _ _ ih ih' =>
    simp [countP_cons, Mark.isOpening]
    omega

/-- An end of an attempt tells what the record of the attempt tells. -/
structure Agrees (e : Event α) (r : StepRecord) : Prop where
  name : get? "step" e = some (.plain (.str r.name))
  attempt : get? "attempt" e = some (.plain (.int r.attempts))
  status : get? "status" e = some (.plain (.str r.status))
  duration : get? "duration_ms" e = some (.plain (.int r.milliseconds))
  error : get? "error" e = r.error.map fun text => .plain (.str text)

/-- The starts and the ends of attempts name what they belong to, and the ends agree with the
records. -/
structure Report.Accounted (r : Report α) : Prop where
  marked : ∀ e ∈ r.events, kind? e = some "step_start" ∨ kind? e = some "step_end" →
    (mark? e).isSome
  agrees : Forall₂ Agrees r.ends r.steps

variable {e : Event α}

theorem kind?_of_opening {step : String} {n : Int} (h : mark? e = some (.opening step n)) :
    kind? e = some "step_start" := by
  unfold mark? at h
  split at h
  · by_cases hs : kind? e = some "step_start"
    · exact hs
    · rw [if_neg hs] at h
      split at h <;> cases h
  · cases h

theorem mark?_of_agrees {r : StepRecord} (hk : kind? e = some "step_end") (h : Agrees e r) :
    mark? e = some (.closing r.name r.attempts) := by
  simp [mark?, plain?, Note.plain?, h.name, h.attempt, hk]

theorem mark?_of_log (hk : kind? e = some "log") : mark? e = none := by
  unfold mark?
  split
  · simp [hk]
  · rfl

/-! ## Reports with other values -/

section map

variable (f : α → β)

theorem plain?_mapValues (name : String) (e : Event α) :
    plain? name (e.mapValues (Note.map f)) = plain? name e := by
  rw [plain?, plain?, get?_mapValues]
  cases get? name e with
  | none => rfl
  | some note => cases note <;> rfl

theorem kind?_mapValues (e : Event α) : kind? (e.mapValues (Note.map f)) = kind? e := by
  rw [kind?, kind?, plain?_mapValues]

theorem mark?_mapValues (e : Event α) : mark? (e.mapValues (Note.map f)) = mark? e := by
  rw [mark?, mark?, kind?_mapValues, plain?_mapValues, plain?_mapValues]

theorem Agrees.mapValues {e : Event α} {r : StepRecord} (h : Agrees e r) :
    Agrees (e.mapValues (Note.map f)) r where
  name := by rw [get?_mapValues, h.name]; rfl
  attempt := by rw [get?_mapValues, h.attempt]; rfl
  status := by rw [get?_mapValues, h.status]; rfl
  duration := by rw [get?_mapValues, h.duration]; rfl
  error := by rw [get?_mapValues, h.error]; cases r.error <;> rfl

theorem Report.marks_map (r : Report α) : (r.map f).marks = r.marks := by
  unfold Report.marks Report.map
  rw [filterMap_map]
  simp only [Function.comp_def, mark?_mapValues]

theorem Report.Accounted.map {r : Report α} (h : r.Accounted) : (r.map f).Accounted where
  marked := by
    intro _ mem hs
    obtain ⟨e, hb, rfl⟩ := mem_map.1 mem
    rw [kind?_mapValues] at hs
    rw [mark?_mapValues]
    exact h.marked e hb hs
  agrees := by
    have he : (r.map f).ends = r.ends.map fun e => e.mapValues (Note.map f) := by
      unfold Report.ends Report.map
      rw [filter_map]
      simp only [Function.comp_def, kind?_mapValues]
    rw [he, forall₂_map_left_iff]
    exact h.agrees.imp fun _ _ ha => ha.mapValues f

end map

/-! ## What runs add to reports -/

/-- Events and records that a run may add, and how many of the starts among them are left unclosed. -/
inductive Block : List (Event α) → List StepRecord → Nat → Prop
  | nil : Block [] [] 0
  | message {e : Event α} (kind : kind? e = some "log") : Block [e] [] 0
  | closed {opening closing : Event α} {es : List (Event α)} {rs : List StepRecord} {r : StepRecord}
    {lost : Nat} (opens : mark? opening = some (.opening r.name r.attempts))
    (closes : kind? closing = some "step_end") (agrees : Agrees closing r)
    (within : Block es rs lost) : Block (opening :: es ++ [closing]) (rs ++ [r]) lost
  | unclosed {opening : Event α} {es : List (Event α)} {rs : List StepRecord} {step : String}
    {n : Int} {lost : Nat} (opens : mark? opening = some (.opening step n))
    (within : Block es rs lost) : Block (opening :: es) rs (lost + 1)
  | append {es es' : List (Event α)} {rs rs' : List StepRecord} {lost lost' : Nat}
    (first : Block es rs lost) (next : Block es' rs' lost') :
    Block (es ++ es') (rs ++ rs') (lost + lost')

section Block

variable {es : List (Event α)} {rs : List StepRecord} {lost : Nat}

theorem Block.marked (h : Block es rs lost) :
    ∀ e ∈ es, kind? e = some "step_start" ∨ kind? e = some "step_end" → (mark? e).isSome := by
  induction h with
  | nil => exact nofun
  | message hk =>
    intro e he hs
    rw [mem_singleton.1 he, hk] at hs
    exact absurd hs (by decide)
  | closed ho hc ha _ ih =>
    intro e he hs
    rcases mem_cons.1 he with rfl | hl
    · rw [ho]
      rfl
    · rcases mem_append.1 hl with hi | hla
      · exact ih e hi hs
      · rw [mem_singleton.1 hla, mark?_of_agrees hc ha]
        rfl
  | unclosed ho _ ih =>
    intro e he hs
    rcases mem_cons.1 he with rfl | hl
    · rw [ho]
      rfl
    · exact ih e hl hs
  | append _ _ ih ih' =>
    intro e he
    rcases mem_append.1 he with first | next
    · exact ih e first
    · exact ih' e next

theorem Block.agrees (h : Block es rs lost) :
    Forall₂ Agrees (es.filter fun e => kind? e = some "step_end") rs := by
  induction h with
  | nil => exact .nil
  | message hk =>
    rw [filter_cons_of_neg (by simp [hk])]
    exact .nil
  | closed ho hc agrees _ ih =>
    rw [cons_append, filter_cons_of_neg (by simp [kind?_of_opening ho]),
      filter_append, filter_cons_of_pos (by simp [hc])]
    exact rel_append ih (.cons agrees .nil)
  | unclosed ho _ ih =>
    rw [filter_cons_of_neg (by simp [kind?_of_opening ho])]
    exact ih
  | append _ _ ih ih' =>
    rw [filter_append]
    exact rel_append ih ih'

theorem Block.nested (h : Block es rs lost) (none : lost = 0) : Nested (es.filterMap mark?) := by
  induction h with
  | nil => exact .nil
  | message hk =>
    rw [filterMap_cons_none (mark?_of_log hk)]
    exact .nil
  | closed ho hc ha _ ih =>
    rw [cons_append, filterMap_cons_some ho, filterMap_append, filterMap_cons_some (mark?_of_agrees hc ha)]
    exact .around (ih none) .nil
  | unclosed _ _ _ => omega
  | append _ _ ih ih' =>
    rw [filterMap_append]
    exact (ih (by omega)).append (ih' (by omega))

theorem Block.countP_isOpening (h : Block es rs lost) :
    2 * (es.filterMap mark?).countP Mark.isOpening = (es.filterMap mark?).length + lost := by
  induction h with
  | nil => rfl
  | message hk => rw [filterMap_cons_none (mark?_of_log hk)]; rfl
  | closed ho hc ha _ ih =>
    rw [cons_append, filterMap_cons_some ho, filterMap_append, filterMap_cons_some (mark?_of_agrees hc ha)]
    simp [countP_cons, Mark.isOpening]
    omega
  | unclosed ho _ ih =>
    rw [filterMap_cons_some ho]
    simp [countP_cons, Mark.isOpening]
    omega
  | append _ _ ih ih' =>
    rw [filterMap_append, countP_append, length_append]
    omega

theorem Block.nested_iff (h : Block es rs lost) : Nested (es.filterMap mark?) ↔ lost = 0 := by
  refine ⟨fun hn => ?_, h.nested⟩
  have := hn.countP_isOpening
  have := h.countP_isOpening
  omega

end Block

def State.told (s : State τ α) : Option (List (Event α) × List StepRecord) :=
  s.report.map fun r => (r.events, r.steps)

def Adds (lost : Nat) (s s' : State τ α) : Prop :=
  ∀ r, s.report = some r → ∃ r' es rs, s'.report = some r' ∧ r'.events = r.events ++ es ∧
    r'.steps = r.steps ++ rs ∧ Block es rs lost

variable {s s' : State τ α}

theorem Adds.of_same (hsa : s'.told = s.told) : Adds 0 s s' := by
  intro r hc
  rw [State.told, State.told, hc] at hsa
  obtain ⟨r', hc', hb⟩ := Option.map_eq_some_iff.1 hsa
  obtain ⟨he, hs⟩ := Prod.mk.inj hb
  refine ⟨r', [], [], hc', ?_, ?_, .nil⟩
  · rw [he, append_nil]
  · rw [hs, append_nil]

theorem Adds.trans {m n : Nat} {s'' : State τ α} (first : Adds m s s') (next : Adds n s' s'') :
    Adds (m + n) s s'' := by
  intro r h
  obtain ⟨r', es, rs, h', he, hs, hb⟩ := first r h
  obtain ⟨r'', es', rs', h'', he', hs', hb'⟩ := next r' h'
  refine ⟨r'', es ++ es', rs ++ rs', h'', ?_, ?_, hb.append hb'⟩
  · rw [he', he, append_assoc]
  · rw [hs', hs, append_assoc]

end Appwright.Trace

namespace Appwright.Trace

/-! ## Failed attempts -/

variable {τ α β γ ε : Type} {failures : Failures ε} {txt : α → Option String} {x : Run τ α ε β}

def failureOf {σ : Type} : EStateM.Result ε σ β → List ε
  | .ok _ _ => []
  | .error e _ => [e]

/-- In the run of a program from a state with a report, attempts of steps fail with these failures, in
the order in which they end. -/
inductive FailedAttempts (failures : Failures ε) (textOf : α → Option String) :
    {β : Type} → Run τ α ε β → State τ α → List ε → Prop
  /-- Attempts are reported, so where the report tells nothing new there was none. -/
  | quiet {β : Type} {x : Run τ α ε β} {s : State τ α} (same : (ending (x s)).told = s.told) :
    FailedAttempts failures textOf x s []
  | message (v : α) (fields : Entries α) (s : State τ α) :
    FailedAttempts failures textOf (logMessage failures v fields) s []
  | bind {β γ : Type} {x : Run τ α ε β} {f : β → Run τ α ε γ} {s s' : State τ α} {v : β}
    {es es' : List ε} (first : FailedAttempts failures textOf x s es) (run : x s = .ok v s')
    (next : FailedAttempts failures textOf (f v) s' es') :
    FailedAttempts failures textOf (x >>= f) s (es ++ es')
  | stopped {β γ : Type} {x : Run τ α ε β} {f : β → Run τ α ε γ} {s s' : State τ α} {e : ε}
    {es : List ε} (first : FailedAttempts failures textOf x s es) (run : x s = .error e s') :
    FailedAttempts failures textOf (x >>= f) s es
  | caught {β : Type} {x : Run τ α ε β} {s : State τ α} {es : List ε}
    (within : FailedAttempts failures textOf x s es) :
    FailedAttempts failures textOf (caught x) s es
  | attempt {settings : Settings} {body : Run τ α ε α} {number : Nat} {s s' : State τ α}
    {es : List ε} (start : (recordStart settings number : Run τ α ε Unit) s = .ok () s')
    (within : FailedAttempts failures textOf (attemptOnce failures textOf settings body) s' es) :
    FailedAttempts failures textOf (attempt failures textOf settings body number) s
      (es ++ failureOf (attemptOnce failures textOf settings body s'))

def Failures.untold (failures : Failures ε) (e : ε) : Bool :=
  !(failures.describe e).isOk

/-! ## The report of a run -/

theorem logMessage_report (failures : Failures ε) (v : α) (fs : Entries α) (s : State τ α) :
    (ending (logMessage failures v fs s)).report = s.report ∨
      ∃ e, Event.kind? e = some "log" ∧ (ending (logMessage failures v fs s)).report
        = s.report.map fun r => { r with events := r.events ++ [e] } := by
  unfold logMessage
  by_cases hm : fs.has "message"
  · rw [if_pos hm]
    exact .inl rfl
  · by_cases hk : fs.has "kind"
    · rw [if_neg hm, if_pos hk]
      exact .inl rfl
    · rw [if_neg hm, if_neg hk]
      refine .inr ⟨_, ?_, rfl⟩
      have ha : "kind" ∉ ("message" :: fs.names) := by
        simp only [List.mem_cons, not_or]
        refine ⟨by decide, fun mem => hk ?_⟩
        obtain ⟨w, hf⟩ := Entries.exists_get?_of_mem_names mem
        rw [Entries.has, hf]
        rfl
      rw [Event.kind?, Event.plain?, Entries.get?_update_of_not_mem]
      · rfl
      · simpa [Entries.mapValues, Entries.names] using ha

section attempt

variable {cfg : Settings} {body : Run τ α ε α} {num : Nat} {s begun done : State τ α}

theorem recordStart_report (hs : (recordStart cfg num : Run τ α ε Unit) s = .ok () begun) :
    ∃ e, Event.mark? e = some (.opening cfg.name num) ∧
      begun.report = s.report.map fun r => { r with events := r.events ++ [e] } := by
  cases hs
  exact ⟨_, rfl, rfl⟩

variable {error : Option String} {lost : Nat} {started : Float} {final : State τ α}

theorem recordEnd_report
    (hs : (recordEnd cfg num started error : Run τ α ε Unit) done = .ok () final) :
    ∃ e r, Event.kind? e = some "step_end" ∧ Agrees e r ∧ r.name = cfg.name ∧
      r.attempts = num ∧ final.report = done.report.map fun rep =>
        { rep with events := rep.events ++ [e], steps := rep.steps ++ [r] } := by
  cases hs
  cases error with
  | none | some => exact ⟨_, _, rfl, ⟨rfl, rfl, rfl, rfl, rfl⟩, rfl, rfl, Option.map_map _ _ _⟩

theorem Adds.closed
    (hs : (recordStart cfg num : Run τ α ε Unit) s = .ok () begun) (hw : Adds lost begun done)
    (stop : (recordEnd cfg num started error : Run τ α ε Unit) done = .ok () final) :
    Adds lost s final := by
  intro r hc
  obtain ⟨opening, hop, ho⟩ := recordStart_report hs
  obtain ⟨closing, record, hcl, hag, hn, ha, closed⟩ := recordEnd_report stop
  rw [hc] at ho
  obtain ⟨r', es, rs, hi, he, hst, hb⟩ := hw _ ho
  rw [hi] at closed
  refine ⟨_, opening :: es ++ [closing], rs ++ [record], closed, ?_, ?_, ?_⟩
  · simp [he]
  · simp [hst]
  · exact hb.closed (by rw [hop, hn, ha]) hcl hag

theorem Adds.unclosed (hs : (recordStart cfg num : Run τ α ε Unit) s = .ok () begun)
    (hw : Adds lost begun done) : Adds (lost + 1) s done := by
  intro r hc
  obtain ⟨opening, hop, ho⟩ := recordStart_report hs
  rw [hc] at ho
  obtain ⟨r', es, rs, hi, he, hst, hb⟩ := hw _ ho
  refine ⟨r', opening :: es, rs, hi, ?_, hst, hb.unclosed hop⟩
  simp [he]

/-- The end of an attempt is recorded unless the attempt fails and its failure cannot be told. -/
theorem Adds.attempt (hs : (recordStart cfg num : Run τ α ε Unit) s = .ok () begun)
    (hw : Adds lost begun (ending (attemptOnce failures txt cfg body begun))) :
    Adds (lost + (failureOf (attemptOnce failures txt cfg body begun)).countP failures.untold)
      s (ending (attempt failures txt cfg body num s)) := by
  unfold Trace.attempt
  rw [bind_of_ok hs, get_bind, caught_bind]
  cases run : attemptOnce failures txt cfg body begun with
  | ok v done =>
    rw [run] at hw
    exact hw.closed hs rfl
  | error e done =>
    rw [run] at hw
    cases ht : failures.describe e with
    | ok text =>
      have hc : ¬ failures.untold e := by
        rw [Failures.untold, ht]
        exact Bool.false_ne_true
      rw [failureOf, List.countP_cons_of_neg hc]
      simp only [outcome, ht]
      exact hw.closed hs rfl
    | error e' =>
      have hl : failures.untold e := by
        rw [Failures.untold, ht]
        rfl
      rw [failureOf, List.countP_cons_of_pos hl]
      simp only [outcome, ht]
      exact hw.unclosed hs

end attempt

variable {s : State τ α} {δ : Type}

/-- A run leaves one start unclosed for each failure that cannot be told. -/
theorem FailedAttempts.adds {es : List ε} (h : FailedAttempts failures txt x s es) :
    Adds (es.countP failures.untold) s (ending (x s)) := by
  induction h with
  | quiet same => exact .of_same same
  | message v fields s =>
    rcases logMessage_report failures v fields s with same | ⟨e, kind, added⟩
    · exact .of_same (by rw [State.told, State.told, same])
    · intro r current
      rw [current] at added
      exact ⟨_, [e], [], added, rfl, (List.append_nil _).symm, .message kind⟩
  | bind _ run _ ih ih' =>
    rw [run] at ih
    rw [bind_of_ok run, List.countP_append]
    exact ih.trans ih'
  | stopped _ run ih =>
    rw [run] at ih
    rw [bind_of_error run]
    exact ih
  | caught _ ih => exact ih
  | attempt start _ ih =>
    rw [List.countP_append]
    exact ih.attempt start

/-! ## Programs whose attempts can be followed -/

def Tracked (failures : Failures ε) (textOf : α → Option String) (x : Run τ α ε β) : Prop :=
  ∀ s, ∃ es, FailedAttempts failures textOf x s es

/-- A report tells of all attempts in a run, as far as their failures can be told. -/
structure Documents (failures : Failures ε) (textOf : α → Option String) (x : Run τ α ε β)
    (s : State τ α) (r : Report γ) : Prop where
  accounted : r.Accounted
  followed : ∃ es, FailedAttempts failures textOf x s es
  nested_iff : ∀ es, FailedAttempts failures textOf x s es →
    (Nested r.marks ↔ ∀ e ∈ es, ∃ text, failures.describe e = .ok text)

theorem Documents.map {x : Run τ α ε β} {r : Report γ}
    (h : Documents failures txt x s r) (f : γ → δ) : Documents failures txt x s (r.map f) where
  accounted := h.accounted.map f
  followed := h.followed
  nested_iff es hf := by rw [Report.marks_map, h.nested_iff es hf]

/-- The report of a run, where it was empty before, documents the run. -/
theorem Tracked.documents (h : Tracked failures txt x) {r : Report α}
    (hc : s.report = some r) (hn : r.events = []) (hno : r.steps = []) :
    ∃ r', (ending (x s)).report = some r' ∧ Documents failures txt x s r' := by
  obtain ⟨es, hf⟩ := h s
  obtain ⟨r', evs, records, hfi, hh, hsteps, hb⟩ := hf.adds r hc
  rw [hn, List.nil_append] at hh
  rw [hno, List.nil_append] at hsteps
  refine ⟨r', hfi, ⟨?_, ?_⟩, ⟨es, hf⟩, ?_⟩
  · rw [hh]
    exact hb.marked
  · rw [Report.ends, hh, hsteps]
    exact hb.agrees
  · intro es' hf'
    obtain ⟨r'', evs', rs', hfi', hh', hsteps', hb'⟩ := hf'.adds r hc
    cases hfi.symm.trans hfi'
    rw [hn, List.nil_append] at hh'
    rw [Report.marks, hh', hb'.nested_iff, List.countP_eq_zero]
    refine forall₂_congr fun e _ => ?_
    unfold Failures.untold
    cases failures.describe e with
    | ok | error => simp [Except.isOk, Except.toBool]

theorem Tracked.of_keeps (h : Keeps (Stays State.told) x) : Tracked failures txt x :=
  fun s => ⟨[], .quiet (h s)⟩

theorem tracked_pure (v : β) : Tracked failures txt (pure v : Run τ α ε β) := .of_keeps (keeps_pure v)

theorem tracked_throw (e : ε) : Tracked failures txt (throw e : Run τ α ε β) := .of_keeps (keeps_throw e)

theorem tracked_get : Tracked failures txt (get : Run τ α ε (State τ α)) := .of_keeps keeps_get

theorem tracked_modify {f : State τ α → State τ α} (hs : ∀ s, (f s).told = s.told) :
    Tracked failures txt (modify f : Run τ α ε Unit) :=
  .of_keeps (keeps_modify hs)

theorem tracked_onRest (x : EStateM ε τ β) : Tracked failures txt (onRest x : Run τ α ε β) := by
  refine .of_keeps fun s => ?_
  unfold onRest
  cases x s.rest <;> rfl

theorem tracked_logMessage (v : α) (fs : Entries α) :
    Tracked failures txt (logMessage failures v fs : Run τ α ε Unit) :=
  fun s => ⟨[], .message v fs s⟩

theorem Tracked.bind {x : Run τ α ε β} {f : β → Run τ α ε γ} (hx : Tracked failures txt x)
    (hf : ∀ v, Tracked failures txt (f v)) : Tracked failures txt (x >>= f) := by
  intro s
  obtain ⟨es, first⟩ := hx s
  cases run : x s with
  | ok v s' =>
    obtain ⟨es', next⟩ := hf v s'
    exact ⟨es ++ es', first.bind run next⟩
  | error e s' => exact ⟨es, first.stopped run⟩

theorem Tracked.yields {f : β → γ} (hx : Tracked failures txt x) :
    Tracked failures txt (x >>= fun v => pure (f v)) :=
  hx.bind fun _ => tracked_pure _

theorem Tracked.map (f : β → γ) (hx : Tracked failures txt x) : Tracked failures txt (f <$> x) := by
  rw [map_eq_pure_bind]
  exact hx.yields

theorem Tracked.caught {x : Run τ α ε β} (hx : Tracked failures txt x) :
    Tracked failures txt (caught x) := by
  intro s
  obtain ⟨es, hw⟩ := hx s
  exact ⟨es, hw.caught⟩

theorem Tracked.ite {p : Prop} [Decidable p] {x y : Run τ α ε β} (hx : Tracked failures txt x)
    (hy : Tracked failures txt y) : Tracked failures txt (if p then x else y) := by
  by_cases h : p
  · rw [if_pos h]
    exact hx
  · rw [if_neg h]
    exact hy

theorem Tracked.mapM {f : δ → Run τ α ε β} (h : ∀ v, Tracked failures txt (f v)) :
    ∀ vs : List δ, Tracked failures txt (vs.mapM f)
  | [] => by
    rw [List.mapM_nil]
    exact tracked_pure _
  | v :: vs => by
    rw [List.mapM_cons]
    exact (h v).bind fun _ => (Tracked.mapM h vs).yields

theorem Tracked.foldlM {f : β → δ → Run τ α ε β} (h : ∀ b v, Tracked failures txt (f b v)) :
    ∀ (vs : List δ) (b : β), Tracked failures txt (vs.foldlM f b)
  | [], b => by
    rw [List.foldlM_nil]
    exact tracked_pure b
  | v :: vs, b => by
    rw [List.foldlM_cons]
    exact (h b v).bind fun b' => Tracked.foldlM h vs b'

/-! ## Steps -/

theorem tracked_setAlarm (alarm : Option Json) :
    Tracked failures txt (modify fun s => { s with alarm } : Run τ α ε PUnit) :=
  tracked_modify fun _ => rfl

theorem Tracked.withLimit (lim : Json) {x : Run τ α ε β} (hx : Tracked failures txt x) :
    Tracked failures txt (withLimit lim x) := by
  refine .ite (tracked_get.bind fun s => ?_) hx
  refine (tracked_setAlarm (some lim)).bind fun _ => hx.caught.bind fun out => ?_
  cases out with
  | ok v => exact .ite ((tracked_setAlarm s.alarm).bind fun _ => tracked_pure v) (tracked_pure v)
  | error e => exact .ite ((tracked_setAlarm s.alarm).bind fun _ => tracked_throw e) (tracked_throw e)

theorem tracked_checkTokens (text : String) (ts : List Json) :
    Tracked failures txt (checkTokens failures text ts : Run τ α ε Unit) := by
  fun_induction checkTokens failures text ts with
  | case1 => exact tracked_pure _
  | case2 => exact tracked_throw _
  | case3 _ _ _ ih => exact ih
  | case4 => exact tracked_throw _

section callStep

variable {body : Run τ α ε α} (cfg : Settings)

theorem Tracked.attemptOnce (hbody : Tracked failures txt body) :
    Tracked failures txt (attemptOnce failures txt cfg body) := by
  refine (hbody.withLimit cfg.timeout).bind fun v => ?_
  cases txt v with
  | none => exact tracked_pure v
  | some text =>
    cases cfg.tokens? with
    | none => exact (tracked_throw _).bind fun _ => tracked_pure v
    | some ts => exact (tracked_checkTokens text ts).bind fun _ => tracked_pure v

theorem Tracked.attempt (hbody : Tracked failures txt body) (num : Nat) :
    Tracked failures txt (attempt failures txt cfg body num) := by
  intro s
  obtain ⟨es, hw⟩ := hbody.attemptOnce cfg _
  exact ⟨_, .attempt rfl hw⟩

theorem Tracked.attemptsFrom (hbody : Tracked failures txt body) (left num : Nat) :
    Tracked failures txt (attemptsFrom failures txt cfg body left num) := by
  induction left generalizing num with
  | zero =>
    unfold Trace.attemptsFrom
    refine (hbody.attempt cfg num).bind fun out => ?_
    cases out with
    | ok v => exact tracked_pure v
    | error e => exact tracked_throw e
  | succ more ih =>
    unfold Trace.attemptsFrom
    refine (hbody.attempt cfg num).bind fun out => ?_
    cases out with
    | ok v => exact tracked_pure v
    | error e => exact ih (num + 1)

theorem Tracked.callStep (hbody : Tracked failures txt body) :
    Tracked failures txt (callStep failures txt cfg body) := by
  unfold Trace.callStep
  cases cfg.retries with
  | ok more => exact hbody.attemptsFrom cfg more 1
  | error err => exact tracked_throw _

end callStep

end Appwright.Trace
