import Appwright.Proofs.Program.Report
import Mathlib.Data.Nat.Find

/-!
# Tries of a step

A step calls its function until a try is good, and no more often than it may. A try is good if the
function returns a value that is no text with a guarded token in it. What the step comes to is what
its last try came to, and each try has its record.

All of this rests on failures that can be told. The first failure that cannot be told ends the step
at once, without a record and whatever tries are left (`callStep_tries`).

The tries of a call are numbered from zero here, and told by the state in which each of them begins
(`Call.start`). The records count them from one.
-/

namespace Appwright.Trace

open Target List Nat Text

variable {τ α ε β : Type} {ts : List String} {failures : Failures ε} {textOf : α → Option String}
  {cfg : Settings}

/-! ## What a function comes to -/

def conclude {σ : Type} (s : σ) : Except ε β → EStateM.Result ε σ β
  | .ok v => .ok v s
  | .error e => .error e s

theorem ending_conclude {σ : Type} (s : σ) (r : Except ε β) : ending (conclude s r) = s := by
  cases r <;> rfl

def guarded (failures : Failures ε) (textOf : α → Option String) (tokens : List String) (v : α) :
    Except ε α :=
  match (textOf v).bind fun text => tokens.find? (Text.contains text) with
  | some token => .error (failures.guardHit token)
  | none => .ok v

theorem guarded_eq_ok {v v' : α} (h : guarded failures textOf ts v = .ok v') :
    v' = v ∧ ∀ text, textOf v = some text → ∀ tok ∈ ts, ¬ contains text tok := by
  unfold guarded at h
  split at h
  · cases h
  next hc =>
    cases h
    refine ⟨rfl, fun text hs => ?_⟩
    rw [hs] at hc
    exact find?_eq_none.1 hc

theorem checkTokens_strings (failures : Failures ε) (text : String) (tokens : List String)
    (s : State τ α) : checkTokens failures text (tokens.map .str) s =
      ((tokens.find? (contains text)).elim (pure ()) fun tok =>
        throw (failures.guardHit tok) : Run τ α ε Unit) s := by
  induction tokens with
  | nil => rfl
  | cons tok tokens ih =>
    rw [map_cons, checkTokens]
    by_cases hit : contains text tok
    · rw [if_pos hit, find?_cons_of_pos hit]
      rfl
    · rw [if_neg hit, find?_cons_of_neg hit, ih]

theorem tokens?_of_strings (hl : cfg.guard = .arr (ts.map .str)) :
    cfg.tokens? = some (ts.map .str) := by
  unfold Settings.tokens? Settings.guardList
  rw [hl]
  cases ts <;> rfl

theorem attemptOnce_eq (hl : cfg.guard = .arr (ts.map .str))
    (body : Run τ α ε α) (s : State τ α) : attemptOnce failures textOf cfg body s =
      conclude (ending (withLimit cfg.timeout body s))
        (outcome (withLimit cfg.timeout body s) >>= guarded failures textOf ts) := by
  unfold attemptOnce
  cases run : withLimit cfg.timeout body s with
  | error e s' => exact bind_of_error run
  | ok v s' =>
    rw [bind_of_ok run]
    change _ = conclude s' (guarded failures textOf ts v)
    unfold guarded
    cases textOf v with
    | none => rfl
    | some text =>
      rw [tokens?_of_strings hl, Option.bind_some]
      have hc : (checkTokens failures text (ts.map .str) : Run τ α ε Unit) s' = _ :=
        checkTokens_strings failures text ts s'
      cases hit : ts.find? (contains text) with
      | none => rw [hit] at hc; exact bind_of_ok hc
      | some tok => rw [hit] at hc; exact bind_of_error hc

theorem ending_withLimit (lim : Json) (body : Run τ α ε β) (s : State τ α) :
    ending (withLimit lim body s) = if lim.truthy then
        let post := ending (body { s with alarm := some lim })
        if canTime lim then { post with alarm := s.alarm } else post
      else ending (body s) := by
  unfold withLimit
  by_cases hl : lim.truthy
  · rw [if_pos hl, if_pos hl, get_bind, modify_bind, caught_bind]
    by_cases ht : canTime lim
    · rw [if_pos ht, if_pos ht]
      cases body { s with alarm := some lim } <;> rfl
    · rw [if_neg ht, if_neg ht]
      cases body { s with alarm := some lim } <;> rfl
  · rw [if_neg hl, if_neg hl]

theorem exists_rest_withLimit (lim : Json) (body : Run τ α ε β) (s : State τ α) :
    ∃ s', s'.rest = s.rest ∧ (ending (withLimit lim body s)).rest = (ending (body s')).rest := by
  rw [ending_withLimit]
  split
  · refine ⟨{ s with alarm := some lim }, rfl, ?_⟩
    split <;> rfl
  · exact ⟨s, rfl, rfl⟩

/-! ## The tries of a call -/

/-- A call of a step whose settings are a whole number and a list of tokens. -/
structure Call (τ α ε : Type) where
  failures : Failures ε
  textOf : α → Option String
  settings : Settings
  body : Run τ α ε α
  retry : Int
  guard : List String
  retry_eq : settings.retry = .int retry
  guard_eq : settings.guard = .arr (guard.map .str)

namespace Call

variable (c : Call τ α ε) (s : State τ α) {i : Nat}

def run : Run τ α ε α :=
  callStep c.failures c.textOf c.settings c.body

def limit : Nat :=
  (max 1 (1 + c.retry)).toNat

def start : Nat → State τ α
  | 0 => s
  | i + 1 => ending (attempt c.failures c.textOf c.settings c.body (i + 1) (start i))

def begun (i : Nat) : State τ α :=
  ending ((recordStart c.settings (i + 1) : Run τ α ε Unit) (c.start s i))

def result (i : Nat) : EStateM.Result ε (State τ α) α :=
  withLimit c.settings.timeout c.body (c.begun s i)

def verdict (i : Nat) : Except ε α :=
  outcome (c.result s i) >>= guarded c.failures c.textOf c.guard

def Told (i : Nat) : Prop :=
  ∀ e, c.verdict s i = .error e → ∃ text, c.failures.describe e = .ok text

/-- A try adds to what the function leaves one event and one record of the try. -/
def Recorded (i : Nat) : Prop :=
  ∃ (event : Event α) (record : StepRecord), record.name = c.settings.name ∧
    record.attempts = i + 1 ∧ record.status = (if (c.verdict s i).isOk then "ok" else "error") ∧
    c.start s (i + 1) = { ending (c.result s i) with
      report := (ending (c.result s i)).report.map fun r =>
        { r with events := r.events ++ [event], steps := r.steps ++ [record] } }

/-- The function is called a number of times: a meter that each of its runs raises by one is raised by
that number. -/
def Calls (count : Nat) : Prop :=
  ∀ meter : τ → Nat, (∀ s', meter (ending (c.body s')).rest = meter s'.rest + 1) →
    meter (ending (c.run s)).rest = meter s.rest + count

/-- Tries end after a number of them: with the first that is good, or where no more may be made. -/
structure Stops (count : Nat) : Prop where
  pos : 0 < count
  le_limit : count ≤ c.limit
  before : ∀ i, i + 1 < count → ¬ (c.verdict s i).isOk = true
  last : (c.verdict s (count - 1)).isOk = true ∨ count = c.limit

/-! ## One try -/

theorem attemptOnce_eq_verdict (i : Nat) : attemptOnce c.failures c.textOf c.settings c.body (c.begun s i) =
      conclude (ending (c.result s i)) (c.verdict s i) :=
  attemptOnce_eq c.guard_eq c.body _

theorem recordEnd_eq (settings : Settings) (number : Nat) (started : Float) (error : Option String)
    (s : State τ α) : ∃ (event : Event α) (record : StepRecord), record.name = settings.name ∧
      record.attempts = number ∧ record.status = (if error.isSome then "error" else "ok") ∧
      (recordEnd settings number started error : Run τ α ε Unit) s = .ok () { s with
        report := s.report.map fun r =>
          { r with events := r.events ++ [event], steps := r.steps ++ [record] } } :=
  ⟨_, ⟨settings.name, if error.isSome then "error" else "ok", elapsed started s.clock, number, error⟩,
    rfl, rfl, rfl, congrArg (fun report : Option (Report α) =>
      (.ok () { s with report } : EStateM.Result ε (State τ α) Unit)) (Option.map_map _ _ _)⟩

/-- A try that can be told goes on with what it came to, in the state that has its record. -/
theorem attempt_of_told (ht : c.Told s i) :
    attempt c.failures c.textOf c.settings c.body (i + 1) (c.start s i) =
        .ok (c.verdict s i) (c.start s (i + 1)) ∧ c.Recorded s i := by
  have hb : (recordStart c.settings (i + 1) : Run τ α ε Unit) (c.start s i) = .ok () (c.begun s i) := rfl
  -- The error, if there is one, has a text; both ends of a try are then the same but for it.
  obtain ⟨error, hs, he⟩ : ∃ error : Option String,
      (if error.isSome then "error" else "ok") = (if (c.verdict s i).isOk then "ok" else "error") ∧
      ∃ started, attempt c.failures c.textOf c.settings c.body (i + 1) (c.start s i) =
        ((recordEnd c.settings (i + 1) started error : Run τ α ε Unit) >>= fun _ =>
          pure (c.verdict s i)) (ending (c.result s i)) := by
    unfold attempt
    rw [bind_of_ok hb, get_bind, caught_bind, c.attemptOnce_eq_verdict]
    cases hc : c.verdict s i with
    | ok v => exact ⟨none, rfl, _, rfl⟩
    | error e =>
      obtain ⟨text, hd⟩ := ht e hc
      refine ⟨some text, rfl, (c.begun s i).clock, ?_⟩
      simp only [conclude, outcome, hd]
      rfl
  obtain ⟨started, hsa⟩ := he
  obtain ⟨event, record, hn, ha, hsh, hr⟩ :=
    recordEnd_eq (ε := ε) c.settings (i + 1) started error (ending (c.result s i))
  rw [bind_of_ok hr] at hsa
  have next : c.start s (i + 1) = { ending (c.result s i) with
      report := (ending (c.result s i)).report.map fun r =>
        { r with events := r.events ++ [event], steps := r.steps ++ [record] } } := by
    rw [start, hsa]
    rfl
  exact ⟨by rw [next]; exact hsa, event, record, hn, ha, hsh.trans hs, next⟩

theorem attempt_of_untold {e e' : ε} (hc : c.verdict s i = .error e)
    (hu : c.failures.describe e = .error e') :
    attempt c.failures c.textOf c.settings c.body (i + 1) (c.start s i) =
      .error e' (ending (c.result s i)) := by
  have hb : (recordStart c.settings (i + 1) : Run τ α ε Unit) (c.start s i) = .ok () (c.begun s i) := rfl
  unfold attempt
  rw [bind_of_ok hb, get_bind, caught_bind, c.attemptOnce_eq_verdict, hc]
  simp only [conclude, outcome, hu]
  rfl

theorem exists_untold (h : ¬ c.Told s i) :
    ∃ e e', c.verdict s i = .error e ∧ c.failures.describe e = .error e' := by
  unfold Told at h
  push Not at h
  obtain ⟨e, hc, hu⟩ := h
  cases hd : c.failures.describe e with
  | ok text => exact absurd hd (hu text)
  | error e' => exact ⟨e, e', hc, hd⟩

theorem rest_start_succ (i : Nat) : (c.start s (i + 1)).rest = (ending (c.result s i)).rest := by
  by_cases ht : c.Told s i
  · obtain ⟨-, event, record, -, -, -, next⟩ := c.attempt_of_told s ht
    rw [next]
  · obtain ⟨e, e', hc, hu⟩ := c.exists_untold s ht
    rw [start, c.attempt_of_untold s hc hu]
    rfl

/-! ## All tries -/

theorem exists_stops : ∃ cnt, c.Stops s cnt := by
  obtain ⟨k, le, hb, hl⟩ := exists_stopsAt (fun i => (c.verdict s i).isOk) (c.limit - 1)
  have some : 0 < c.limit := by unfold limit; omega
  refine ⟨k + 1, succ_pos k, by omega, fun i he => hb i (by omega), ?_⟩
  exact hl.imp id fun hf => by omega

theorem run_eq_attemptsFrom :
    c.run s = attemptsFrom c.failures c.textOf c.settings c.body (c.limit - 1) 1 s := by
  have hc : c.settings.retries = .ok (c.limit - 1) := by
    rw [Settings.retries, c.retry_eq, limit]
    change Except.ok c.retry.toNat = _
    congr 1
    omega
  rw [run, callStep, hc]

/-- Tries that fail and can be told lead to the next one. The induction is on their number, for any
number of tries that are left after them. -/
theorem attemptsFrom_start {j : Nat} (bad : ∀ i < j, ¬ (c.verdict s i).isOk)
    (ht : ∀ i < j, c.Told s i) (left : Nat) :
    attemptsFrom c.failures c.textOf c.settings c.body (j + left) 1 s =
      attemptsFrom c.failures c.textOf c.settings c.body left (j + 1) (c.start s j) := by
  induction j generalizing left with
  | zero => rw [Nat.zero_add]; rfl
  | succ j ih =>
    rw [Nat.add_assoc, Nat.add_comm 1 left, ih (fun i lt => bad i (by omega))
      (fun i lt => ht i (by omega)), attemptsFrom,
      bind_of_ok (c.attempt_of_told s (ht j (lt_succ_self j))).1]
    cases hc : c.verdict s j with
    | ok v => exact absurd (by rw [hc]; rfl) (bad j (lt_succ_self j))
    | error e => rfl

section stopped

variable {cnt : Nat} (hst : c.Stops s cnt)

include hst

theorem run_eq_start {j : Nat} (lt : j < cnt) (ht : ∀ i < j, c.Told s i) :
    c.run s = attemptsFrom c.failures c.textOf c.settings c.body (c.limit - (j + 1)) (j + 1)
      (c.start s j) := by
  have le := hst.le_limit
  rw [run_eq_attemptsFrom, ← c.attemptsFrom_start s (fun i he => hst.before i (by omega)) ht]
  congr 1
  omega

theorem run_of_told (ht : ∀ i < cnt, c.Told s i) :
    c.run s = conclude (c.start s cnt) (c.verdict s (cnt - 1)) := by
  obtain ⟨j, rfl⟩ : ∃ j, cnt = j + 1 := ⟨cnt - 1, by have := hst.pos; omega⟩
  rw [c.run_eq_start s hst (lt_succ_self j) fun i lt => ht i (by omega), attemptsFrom,
    bind_of_ok (c.attempt_of_told s (ht j (Nat.lt_succ_self j))).1, Nat.add_sub_cancel]
  have hl := hst.last
  rw [Nat.add_sub_cancel] at hl
  cases hc : c.verdict s j with
  | ok v => rfl
  | error e =>
    rw [hc] at hl
    rcases hl with hg | hf
    · cases hg
    · rw [hf, Nat.sub_self]
      rfl

theorem run_of_untold {j : Nat} {e e' : ε} (lt : j < cnt) (ht : ∀ i < j, c.Told s i)
    (hc : c.verdict s j = .error e) (hu : c.failures.describe e = .error e') :
    c.run s = .error e' (ending (c.result s j)) := by
  rw [c.run_eq_start s hst lt ht, attemptsFrom]
  exact bind_of_error (c.attempt_of_untold s hc hu)

end stopped

theorem meter_result {meter : τ → Nat}
    (hc : ∀ s', meter (ending (c.body s')).rest = meter s'.rest + 1) (i : Nat) :
    meter (ending (c.result s i)).rest = meter s.rest + (i + 1) := by
  have ho (i : Nat) : meter (ending (c.result s i)).rest = meter (c.start s i).rest + 1 := by
    obtain ⟨s', hs, hr⟩ := exists_rest_withLimit c.settings.timeout c.body (c.begun s i)
    rw [result, hr, hc, hs]
    rfl
  induction i with
  | zero => exact ho 0
  | succ i ih => rw [ho, rest_start_succ, ih, Nat.add_assoc]

theorem run_ok_clear {v : α} {s' : State τ α} (h : c.run s = .ok v s') {text : String}
    (hs : c.textOf v = some text) : ∀ tok ∈ c.guard, ¬ contains text tok := by
  obtain ⟨cnt, hst⟩ := c.exists_stops s
  by_cases ht : ∀ i < cnt, c.Told s i
  · rw [c.run_of_told s hst ht] at h
    cases hca : c.verdict s (cnt - 1) with
    | error e => rw [hca] at h; cases h
    | ok u =>
      rw [hca] at h
      cases h
      obtain ⟨w, -, hc⟩ := of_bind_ok hca
      obtain ⟨rfl, hc⟩ := guarded_eq_ok hc
      exact hc text hs
  · classical
    push Not at ht
    obtain ⟨lt, hf⟩ := Nat.find_spec ht
    obtain ⟨e, e', hca, hu⟩ := c.exists_untold s hf
    have hb (i : Nat) (he : i < Nat.find ht) : c.Told s i := by
      by_contra hidden
      exact Nat.find_min ht he ⟨by omega, hidden⟩
    rw [c.run_of_untold s hst lt hb hca hu] at h
    cases h

end Call

/-- A call of a step stops with its first good try or where it may make no more. If the failures on
the way can be told, it comes to what its last try came to, each try has one record, and the function
is called once for each. The first failure that cannot be told ends the call instead: it has no
record, and no other try is made. No text with a guarded token is ever returned. -/
theorem callStep_tries (c : Call τ α ε) (s : State τ α) :
    ∃ count, c.Stops s count ∧
      ((∀ i < count, c.Told s i) →
        c.run s = conclude (c.start s count) (c.verdict s (count - 1)) ∧
          (∀ i < count, c.Recorded s i) ∧ c.Calls s count) ∧
      (∀ j < count, ∀ e e', (∀ i < j, c.Told s i) → c.verdict s j = .error e →
        c.failures.describe e = .error e' →
          c.run s = .error e' (ending (c.result s j)) ∧
            (∀ i < j, c.Recorded s i) ∧ c.Calls s (j + 1)) ∧
      ∀ v s' text, c.run s = .ok v s' → c.textOf v = some text →
        ∀ token ∈ c.guard, ¬ Text.contains text token = true := by
  obtain ⟨count, stops⟩ := c.exists_stops s
  refine ⟨count, stops, fun told => ?_, fun j lt e e' told came untold => ?_,
    fun v s' text returned => c.run_ok_clear s returned⟩
  · have done := c.run_of_told s stops told
    refine ⟨done, fun i lt => (c.attempt_of_told s (told i lt)).2, fun meter counts => ?_⟩
    obtain ⟨j, rfl⟩ : ∃ j, count = j + 1 := ⟨count - 1, by have := stops.pos; omega⟩
    rw [done, ending_conclude, c.rest_start_succ, c.meter_result s counts]
  · have done := c.run_of_untold s stops lt told came untold
    refine ⟨done, fun i early => (c.attempt_of_told s (told i early)).2, fun meter counts => ?_⟩
    rw [done, ending_error, c.meter_result s counts]

/-- A function that returns a guarded text, then fails, and then returns something else. -/
def moody : Run Nat String String String := fun s =>
  let s' := { s with rest := s.rest + 1 }
  match s.rest with
  | 0 => .ok "no way" s'
  | 1 => .error "broken" s'
  | _ => .ok "yes" s'

def moodyCall : Call Nat String String where
  failures := Program.plainly
  textOf := some
  settings := { name := "moody", retry := .int 3, guard := .arr [.str "no"] }
  body := moody
  retry := 3
  guard := ["no"]
  retry_eq := rfl
  guard_eq := rfl

def moodyStart : State Nat String where
  report := some { about := "", startedAt := 0 }
  rest := 0

/-- Of four tries that `moody` may have it takes three, and they have their records. -/
theorem moody_tries :
    ∃ s', moodyCall.run moodyStart = .ok "yes" s' ∧ s'.rest = 3 ∧
      (s'.report.map fun r => r.steps.map fun record => (record.attempts, record.status)) =
        some [(1, "error"), (2, "error"), (3, "ok")] ∧
      ∀ i < 3, moodyCall.Recorded moodyStart i := by
  obtain ⟨count, stops, comes, -, -⟩ := callStep_tries moodyCall moodyStart
  have three : count = 3 := by
    have bounds : moodyCall.limit = 4 := rfl
    have notFirst : ¬ (moodyCall.verdict moodyStart 0).isOk = true := by decide
    have notSecond : ¬ (moodyCall.verdict moodyStart 1).isOk = true := by decide
    have third : (moodyCall.verdict moodyStart 2).isOk = true := by decide
    have pos := stops.pos
    have last := stops.last
    have before : ¬ 2 + 1 < count := fun later => stops.before 2 later third
    rcases (by omega : count = 1 ∨ count = 2 ∨ count = 3) with rfl | rfl | rfl
    · exact absurd last (by rw [bounds]; simpa using notFirst)
    · exact absurd last (by rw [bounds]; simpa using notSecond)
    · rfl
  subst three
  obtain ⟨done, recorded, calls⟩ := comes fun i _ e _ => ⟨e, rfl⟩
  have counted := calls id fun s' => by
    simp only [moodyCall, moody, id]
    split <;> rfl
  rw [done] at counted
  exact ⟨_, done, counted, rfl, recorded⟩

/-- A function that fails at first, leaves a note, and is done if it finds the note. -/
def fickle (e : Fault) : Eval Value := fun s =>
  if s.rest.globals.isEmpty then
    .error e { s with rest := { s.rest with globals := [("noted", .none)] } }
  else .ok (.str "done") s

def fickleCall (e : Fault) : Call Machine Value Fault where
  failures := Target.failures
  textOf := Target.textOf
  settings := { name := "fickle", retry := .int 1 }
  body := fickle e
  retry := 1
  guard := []
  retry_eq := rfl
  guard_eq := rfl

def fickleStart : State Machine Value where
  report := some { about := .none, startedAt := 0 }
  rest := {}

theorem describe_of_not_told {e : Target.Fault} (hs : e.wording.told = false) :
    Target.failures.describe e = .error (.ofValue Decimal.noText) := by
  change (Target.Wording.tell e.wording).map _ = _
  rw [Target.Wording.tell, hs]
  rfl

/-- The second of two tries would be good, but the first fails with a whole number of 4301 digits,
which cannot be told. So the call fails, there is no second try, and the first has no record. -/
theorem fickle_not_retried :
    ∃ e : Target.Fault, e.wording = .ofInt (.ofNat (Nat.pow 10 4300)) ∧ (fickleCall e).Stops fickleStart 2 ∧
      ((fickleCall e).verdict fickleStart 1).isOk = true ∧
      (fickleCall e).run fickleStart =
        .error (.ofValue Decimal.noText) (ending ((fickleCall e).result fickleStart 0)) ∧
      (ending ((fickleCall e).run fickleStart)).report.map Report.steps = some [] := by
  have silent : (Target.Wording.ofInt (.ofNat (Nat.pow 10 4300))).told = false := by decide +kernel
  -- From here on the number is not looked at.
  generalize Target.Wording.ofInt (.ofNat (Nat.pow 10 4300)) = number at silent ⊢
  obtain ⟨e, wording⟩ : ∃ e : Target.Fault, e.wording = number := ⟨⟨.value, number⟩, rfl⟩
  have untold := describe_of_not_told (e := e) (by rw [wording]; exact silent)
  have failed : (fickleCall e).verdict fickleStart 0 = .error e := rfl
  have noted : (fickleCall e).start fickleStart 1 = ending ((fickleCall e).result fickleStart 0) := by
    rw [Call.start, (fickleCall e).attempt_of_untold fickleStart failed untold]
    rfl
  have good : ((fickleCall e).verdict fickleStart 1).isOk = true := by
    rw [Call.verdict, Call.result, Call.begun, noted]
    rfl
  have stops : (fickleCall e).Stops fickleStart 2 := by
    refine ⟨by decide, Nat.le_refl 2, fun i early => ?_, .inl good⟩
    obtain rfl : i = 0 := by omega
    exact Bool.false_ne_true
  have done := (fickleCall e).run_of_untold fickleStart stops (by decide)
    (fun i early => absurd early (Nat.not_lt_zero i)) failed untold
  refine ⟨e, wording, stops, good, done, ?_⟩
  rw [done]
  rfl

end Appwright.Trace
