import Appwright.Proofs.Program.Retrying

/-!
# What calls and runs leave behind

A call of a step puts the alarm back that was set before it, unless its own time limit cannot be
timed: then it leaves its alarm set, whatever its function comes to and however often it is tried. So
after any number of calls the alarm of the last such one is set (`alarm_callAll`), and rings in steps
that have no limit at all. A run of a program leaves its report current exactly if no source can be
read for the program (`current_execute`).
-/

namespace Appwright.Trace

variable {τ α ε β : Type} {fs : Failures ε} {txt : α → Option String} {body : Run τ α ε α}

/-! ## The alarm -/

abbrev Quiet (x : Run τ α ε β) : Prop :=
  Keeps (Stays State.alarm) x

def outlasts (limit : Json) : Bool :=
  limit.truthy && !canTime limit

def alarmAfter (limit : Json) (before : Option Json) : Option Json :=
  if outlasts limit then some limit else before

theorem alarm_withLimit (hq : Quiet body) (lim : Json) (s : State τ α) :
    (ending (withLimit lim body s)).alarm = alarmAfter lim s.alarm := by
  have ha : (ending (body { s with alarm := some lim })).alarm = some lim := hq _
  rw [ending_withLimit, alarmAfter, outlasts]
  cases lim.truthy with
  | false => exact hq s
  | true =>
    cases canTime lim with
    | true => rfl
    | false => exact ha

theorem quiet_checkTokens (text : String) (ts : List Json) :
    Quiet (checkTokens fs text ts : Run τ α ε Unit) := by
  fun_induction checkTokens fs text ts with
  | case1 => exact keeps_pure _
  | case2 | case4 => exact keeps_throw _
  | case3 _ _ _ ih => exact ih

theorem quiet_recordEnd (cfg : Settings) (num : Nat) (started : Float)
    (error : Option String) : Quiet (recordEnd cfg num started error : Run τ α ε Unit) :=
  fun _ => rfl

theorem alarm_attemptOnce (hq : Quiet body) (cfg : Settings) (s : State τ α) :
    (ending (attemptOnce fs txt cfg body s)).alarm = alarmAfter cfg.timeout s.alarm := by
  refine ending_bind_from (R := Stays State.alarm) (t := { s with alarm := alarmAfter cfg.timeout s.alarm })
    (alarm_withLimit hq cfg.timeout s) fun v => ?_
  cases txt v with
  | none => exact (keeps_pure _).bind fun _ => keeps_pure _
  | some text =>
    cases cfg.tokens? with
    | some ts => exact (quiet_checkTokens text ts).yields
    | none => exact (keeps_throw _).yields

theorem alarm_attempt (hq : Quiet body) (cfg : Settings) (num : Nat) (s : State τ α) :
    (ending (attempt fs txt cfg body num s)).alarm = alarmAfter cfg.timeout s.alarm := by
  unfold attempt
  have hb : (recordStart cfg num : Run τ α ε Unit) s =
      .ok () (ending ((recordStart cfg num : Run τ α ε Unit) s)) := rfl
  rw [bind_of_ok hb, get_bind]
  refine ending_bind_from (R := Stays State.alarm)
    (t := { s with alarm := alarmAfter cfg.timeout s.alarm }) ?_ fun out => ?_
  · exact alarm_attemptOnce hq cfg _
  · cases out with
    | ok v => exact Keeps.bind (quiet_recordEnd _ _ _ _) fun _ => keeps_pure _
    | error e =>
      cases ht : fs.describe e with
      | ok text =>
        simp only [ht]
        exact Keeps.bind (quiet_recordEnd _ _ _ _) fun _ => keeps_pure _
      | error e' =>
        simp only [ht]
        exact (keeps_throw _).yields

/-- However many tries there are, the alarm is as after one of them. -/
theorem alarm_attemptsFrom (hq : Quiet body) (cfg : Settings) (left num : Nat)
    (s : State τ α) : (ending (attemptsFrom fs txt cfg body left num s)).alarm =
      alarmAfter cfg.timeout s.alarm := by
  induction left generalizing num s with
  | zero =>
    rw [attemptsFrom, ← alarm_attempt hq cfg num s]
    refine ending_bind_from (R := Stays State.alarm) (t := ending _) rfl fun out => ?_
    cases out with
    | ok v => exact keeps_pure v
    | error e => exact keeps_throw e
  | succ left ih =>
    have first : (ending (attempt fs txt cfg body num s)).alarm = _ := alarm_attempt hq cfg num s
    rw [attemptsFrom]
    cases run : attempt fs txt cfg body num s with
    | error e s' =>
      rw [run] at first
      rw [bind_of_error run]
      exact first
    | ok out s' =>
      rw [run] at first
      rw [bind_of_ok run]
      cases out with
      | ok v => exact first
      | error e =>
        refine (ih (num + 1) s').trans ?_
        have first : s'.alarm = alarmAfter cfg.timeout s.alarm := first
        rw [first]
        unfold alarmAfter
        split <;> rfl

/-- Whether a call leaves its alarm set: it makes a try, and its time limit cannot be timed. -/
def Settings.outlasts (settings : Settings) : Bool :=
  settings.retries.isOk && settings.timeout.truthy && !canTime settings.timeout

theorem alarm_callStep (hq : Quiet body) (cfg : Settings) (s : State τ α) :
    (ending (callStep fs txt cfg body s)).alarm = if cfg.outlasts then some cfg.timeout else s.alarm := by
  unfold callStep Settings.outlasts
  cases cfg.retries with
  | error err => rfl
  | ok more => exact alarm_attemptsFrom hq cfg more 1 s

abbrev Called (τ α ε : Type) := Settings × Run τ α ε α

def callAll (failures : Failures ε) (textOf : α → Option String) (calls : List (Called τ α ε))
    (s : State τ α) : State τ α :=
  calls.foldl (fun s c => ending (callStep failures textOf c.1 c.2 s)) s

/-- The alarm after calls of steps is that of the last one whose time limit cannot be timed, or the one
from before if there is none. Of whole numbers these are the negative ones and those too large for the
timer. -/
theorem alarm_callAll (failures : Failures ε) (textOf : α → Option String)
    (calls : List (Called τ α ε)) (quiet : ∀ c ∈ calls, Quiet c.2) (s : State τ α) :
    (callAll failures textOf calls s).alarm =
      ((calls.filter fun c => c.1.outlasts).getLast?.map fun c => c.1.timeout).or s.alarm ∧
    ∀ settings : Settings, (settings.timeout = .null → settings.outlasts = false) ∧
      ∀ retry limit : Int, settings.retry = .int retry → settings.timeout = .int limit →
        (settings.outlasts = true ↔ limit < 0 ∨ 9223372036 < limit) := by
  refine ⟨?_, fun settings => ⟨fun none => ?_, fun retry limit whole same => ?_⟩⟩
  · induction calls generalizing s with
    | nil => rfl
    | cons c calls ih =>
      obtain ⟨first, later⟩ := List.forall_mem_cons.mp quiet
      have after := ih later (ending (callStep failures textOf c.1 c.2 s))
      rw [alarm_callStep first] at after
      refine Eq.trans after ?_
      cases leaves : c.1.outlasts with
      | false => simp [leaves]
      | true =>
        rw [List.filter_cons_of_pos (by exact leaves), List.getLast?_cons]
        cases (calls.filter fun c => c.1.outlasts).getLast? <;> rfl
  · simp [Settings.outlasts, none, Json.truthy]
  · simp only [Settings.outlasts, Settings.retries, whole, same, Json.toWhole, Json.truthy, canTime,
      Except.map, Except.isOk, Except.toBool, Bool.true_and, Bool.and_eq_true, bne_iff_ne,
      Bool.not_eq_true', Bool.and_eq_false_iff, decide_eq_false_iff_not]
    omega

def hasty : Called Unit String String :=
  ({ name := "hasty", timeout := .int (-1) }, pure "done")

def calm : Called Unit String String :=
  ({ name := "calm" }, do ring Program.plainly; return "done")

theorem alarm_after_hasty :
    (callAll Program.plainly some [calm, hasty, calm] { rest := () }).alarm = some (.int (-1)) :=
  (alarm_callAll Program.plainly some [calm, hasty, calm] (by
    simp only [List.forall_mem_cons, List.not_mem_nil]
    have calm : Quiet calm.2 := fun s => by
      obtain ⟨clock, report, alarm, rest⟩ := s
      cases alarm <;> rfl
    exact ⟨calm, keeps_pure _, calm, fun _ h => h.elim⟩) { rest := () }).1

/-- The call of `hasty` does not put back that no alarm was set, and `calm`, which ends well before
it, fails after it with the time limit of `hasty`. -/
theorem hasty_leaves_alarm :
    (callAll Program.plainly some [hasty] { rest := () }).alarm = some (.int (-1)) ∧
    outcome (callStep Program.plainly some calm.1 calm.2 { rest := () }) = .ok "done" ∧
    outcome (callStep Program.plainly some calm.1 calm.2
      (callAll Program.plainly some [hasty] { rest := () })) = .error (Json.int (-1)).display := by
  simp only [callAll, List.foldl, callStep, Settings.retries, calm, hasty, Json.toWhole, Except.map,
    Int.toNat_zero, attemptsFrom]
  exact ⟨rfl, rfl, rfl⟩

end Appwright.Trace

namespace Appwright.Program

open Trace

/-! ## The report -/

def Unreadable (program given : Node) : Prop :=
  ∃ members inputs, program = .obj members ∧ inputsOf members given = .ok inputs ∧
    ∀ source, compile members = .ok source → ∃ e, Target.readSource source = .error e

theorem fails_runSource {src : String} {e : Target.Fault}
    (h : Target.readSource src = .error e) (ins : Entries Target.Data)
    (s : State Target.Machine Target.Value) : Fails (runSource src ins) s := by
  unfold runSource
  rw [h]
  refine fails_bind_of_forall (fun es s => ?_) s
  refine fails_bind_of_forall (fun _ s => fails_bind_of_forall (fun _ s => ?_) s) s
  exact fails_bind_iff.2 (.inl (fails_throw e s))

/-- A run that leaves a report is of a document without a source that can be read. -/
theorem current_cases (prog inp : Node) (now : Float) (env : Outbound.Environment) :
    (execute prog inp now env).current = none ∧ ¬ Unreadable prog inp ∨
    Unreadable prog inp ∧ (∃ e, (execute prog inp now env).result = .error e) ∧
      ∃ r, (execute prog inp now env).report = some r ∧ (execute prog inp now env).current = some r := by
  cases prog with
  | obj ms =>
    cases hh : inputsOf ms inp with
    | error e =>
      refine .inl ⟨by simp only [execute, executeMembers, hh], ?_⟩
      rintro ⟨_, ins, ⟨⟩, hs, -⟩
      cases hh.symm.trans hs
    | ok ins =>
      cases hhs : compile ms with
      | error e =>
        refine .inr ⟨⟨ms, ins, rfl, hh, fun src hs => ?_⟩, ?_⟩
        · cases hhs.symm.trans hs
        · simp only [execute, executeMembers, hh, hhs]
          exact ⟨⟨_, rfl⟩, _, rfl, rfl⟩
      | ok src =>
        obtain ⟨r, hr, -⟩ := documents_executeMembers hh hhs now env
        simp only [execute]
        unfold executeMembers at hr ⊢
        simp only [hh, hhs] at hr ⊢
        cases hre : Target.readSource src with
        | ok ss =>
          refine .inl ⟨by split <;> rfl, ?_⟩
          rintro ⟨_, _, ⟨⟩, -, hu⟩
          obtain ⟨e, hf⟩ := hu src hhs
          cases hre.symm.trans hf
        | error e =>
          obtain ⟨e', s', hf⟩ := fails_runSource hre ins
            (opened (Target.Data.ofNode (truthyMember "meta" ms)) now env)
          rw [hf] at hr ⊢
          refine .inr ⟨⟨ms, ins, rfl, hh, fun b hs => ?_⟩, ⟨_, rfl⟩, r, hr, hr⟩
          cases hhs.symm.trans hs
          exact ⟨e, hre⟩
  | _ => exact .inl ⟨rfl, by rintro ⟨_, _, ⟨⟩, -, -⟩⟩

end Appwright.Program
