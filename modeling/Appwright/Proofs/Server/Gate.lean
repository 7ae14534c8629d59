import Appwright.Proofs.Action.Gate
import Appwright.Proofs.Server.Hooks

/-!
# What conditions let pass

Steps of flows and hooks may have conditions. A hook's condition is rewritten first, so that plain
names are fields of its row, and is asked for only if none of the fields that it watches keeps the
hook back. Steps and hooks alike do not evaluate a condition that counts as nothing. Among those
that the check accepts, only a plain `false` means something else than it then does: it lets pass
what it should keep back (`gated_executes_false`). Everything else is gated as evaluation says
(`conditions_gate`).
-/

namespace Appwright.Server

open Spec Condition

variable {su : Setup} {r : Request} {c : Change} {hook : Hook} {s : State} {act : Action}

/-! ## Conditions of hooks -/

theorem eval_hookCondition_of_not_truthy {m : Model} {cond : Json}
    (hc : checkHookCondition m cond = .ok ()) (hn : cond.truthy = false) :
    cond = .bool false ∨ ∀ ctx, eval (hookCondition cond) ctx = .ok true := by
  cases cond with
  | obj ms =>
    cases ms with
    | nil => exact .inr fun ctx => rfl
    | cons e rest => cases hn
  | null | bool => exact eval_of_not_truthy rfl hn
  | arr xs =>
    cases xs with
    | nil => exact eval_of_not_truthy rfl hn
    | cons c cs => cases hn
  | int | float | str => cases hc

def concludeHook (setup : Setup) (r : Request) (c : Change) (hook : Hook) :
    Except Action.Error Action.Result → Handler Unit
  | .error e => auditHook setup r c hook "hook_error" [("error", .str e.message)]
  | .ok result => do
    auditHook setup r c hook "hook_call"
      [("ok", (result.get? "ok").getD .null), ("status", (result.get? "status").getD .null)]
    match writtenBack hook result with
    | [] => pure ()
    | patch =>
      if c.id != 0 then
        let _ ← onStore (Store.update c.model c.id patch)
        auditHook setup r c hook "hook_writeback"
          [("row_id", .int c.id), ("fields", .ofTexts patch.names)]

theorem runHookAction_eq (hk : su.actions.get? hook.action = some act) : runHookAction su r c hook =
      runAction act (hookContext su r c hook) >>= concludeHook su r c hook := by
  unfold runHookAction
  rw [hk]
  rfl

def ExecutesHook (setup : Setup) (r : Request) (c : Change) (hook : Hook) (s : State) : Prop :=
  ∃ action, setup.actions.get? hook.action = some action ∧
    runHook setup r c hook s =
      (runAction action (hookContext setup r c hook) >>= concludeHook setup r c hook) s

/-- That a hook is skipped for its condition is recorded, and nothing else is done. -/
def SkipsHook (setup : Setup) (r : Request) (c : Change) (hook : Hook) (s : State) : Prop :=
  runHook setup r c hook s = auditHook setup r c hook "hook_skip"
    [("reason", .str "when"), ("when", hook.condition), ("row_id", .int c.id)] s

theorem runHook_of_moved (hm : isUnmoved c hook = false) : runHook su r c hook =
      (do if ← hookHolds su r c hook then runHookAction su r c hook) := by
  rw [runHook_eq, hm]
  rfl

theorem executesHook (hm : isUnmoved c hook = false) (holds : verdict su c hook = .ok true)
    (hk : su.actions.get? hook.action = some act) : ExecutesHook su r c hook s := by
  refine ⟨act, hk, ?_⟩
  rw [runHook_of_moved hm, bind_of_ok (hookHolds_eq_ok_true holds), if_pos rfl, runHookAction_eq hk]

theorem skipsHook (hm : isUnmoved c hook = false) (hf : verdict su c hook = .ok false) :
    SkipsHook su r c hook s := by
  have ha : hook.condition.truthy := by
    by_contra ho
    rw [verdict, if_neg ho] at hf
    cases hf
  rw [verdict, if_pos ha] at hf
  have hr : hookHolds su r c hook = (do
      auditHook su r c hook "hook_skip"
        [("reason", .str "when"), ("when", hook.condition), ("row_id", .int c.id)]
      return false) := by
    unfold hookHolds
    rw [ha, hf]
    rfl
  rw [SkipsHook, runHook_of_moved hm, hr, bind_assoc]
  simp

theorem verdict_eq {m : Model} {b : Bool} (hc : checkHookCondition m hook.condition = .ok ())
    (hr : eval (hookCondition hook.condition) (conditionContext su c) = .ok b) :
    verdict su c hook = .ok true ∧ (b ∨ hook.condition = .bool false) ∨
      verdict su c hook = .ok false ∧ ¬ (b ∨ hook.condition = .bool false) := by
  unfold verdict
  cases ha : hook.condition.truthy with
  | false =>
    refine .inl ⟨rfl, ?_⟩
    rcases eval_hookCondition_of_not_truthy hc ha with hs | holds
    · exact .inr hs
    · exact .inl (Except.ok.inj (hr.symm.trans (holds _)))
  | true =>
    have ho : hook.condition ≠ .bool false := by
      intro hs
      rw [hs] at ha
      cases ha
    rw [if_pos rfl, hr]
    cases b with
    | true => exact .inl ⟨rfl, .inl rfl⟩
    | false => exact .inr ⟨rfl, by simp [ho]⟩

/-! ## Gates -/

/-- Conditions decide what is executed, save that what is plainly false counts as no condition. The
steps of a block that are let pass are executed, in order, and nothing else is done; the others are
recorded as skipped. A condition without a truth value ends the flow before its block does anything.
The action of a step that is executed begins if the step gets as far. A hook whose watched fields
did not keep it back executes its action or records that it is skipped. -/
theorem conditions_gate {spec : Json.Members} {app : Spec.App}
    (accepted : Spec.check spec = .ok app) :
    (∀ a ∈ app.actions, ∀ flow, a.flow = some flow → ∀ u ∈ Action.blocks flow.steps,
      (∀ (run : Spec.Step → Action.Run Action.Result) (c : Action.Context)
          (last : Option Action.Result) (w : Action.World),
        (Action.Decided c w u.steps → ∃ executed, Action.Executes run c last u w executed ∧
          ∀ s ∈ u.steps, s ∈ executed ↔
            Condition.eval s.condition (c.view w) = .ok true ∨ s.condition = .bool false) ∧
        (¬ Action.Decided c w u.steps → ∃ e, Action.runBlock run c last u w = .error e w)) ∧
      ∀ s ∈ u.steps, ∀ left registry c w action, Action.Ready a registry c s w action →
        ∃ below, (ending (Action.runStep (Action.runAt left) a registry c s w)).calls =
          w.calls ++ action :: below) ∧
    ∀ environment files token session setup first,
      start app environment files token session = .ok (setup, first) → ∀ hook ∈ app.hooks,
        ∀ r c s b, isUnmoved c hook = false →
          Condition.eval (hookCondition hook.condition) (conditionContext setup c) = .ok b →
          (b = true ∨ hook.condition = .bool false → ExecutesHook setup r c hook s) ∧
          (¬ (b = true ∨ hook.condition = .bool false) → SkipsHook setup r c hook s) := by
  constructor
  · intro a ha flow part u hu
    have within := Action.sublist_of_mem_blocks hu
    have sound := (Spec.sound_of_accepted accepted ha part).2
    have passed (s : Spec.Step) (hs : s ∈ u.steps) :=
      Spec.stepPassed_of_accepted accepted ha part (within.subset hs)
    have forms (s : Spec.Step) (hs : s ∈ u.steps) := (passed s hs).2
    refine ⟨fun run c last w => ⟨fun decided => ?_, Action.runBlock_eq_error last forms⟩, ?_⟩
    · have distinct := (within.map Spec.Step.id).nodup sound.ids
      refine ⟨_, Action.executes_runBlock last distinct decided, fun s hs => ?_⟩
      rw [← Action.isOpen_iff (forms s hs)]
      simp [Action.openSteps, hs]
    · intro s hs left registry c w action ready
      obtain ⟨-, -, retries, -⟩ := (passed s hs).1
      obtain ⟨below, begun, -⟩ := Action.begins_runStep left ready retries
      refine ⟨below, ?_⟩
      rw [begun, Action.World.began, List.append_assoc, List.singleton_append]
  · intro environment files token session setup first started hook mem r c s b moved result
    obtain ⟨passed, m, checked⟩ := Spec.hookPassed_of_accepted accepted mem
    obtain ⟨action, known, named⟩ := List.mem_map.mp passed.action
    have found := get?_actions accepted started known
    rw [named] at found
    rcases verdict_eq checked result with ⟨holds, opens⟩ | ⟨fails, shut⟩
    · exact ⟨fun _ => executesHook moved holds found, fun shut => absurd opens shut⟩
    · exact ⟨fun opens => absurd opens shut, fun _ => skipsHook moved fails⟩

def gatedSpec (condition : Json) : Json.Members := [
  ("db", .obj [("path", .str "app.db"), ("models", .arr [])]),
  ("api", .obj [("crud", .arr []), ("actions", .arr [
    .obj [("name", .str "one"), ("kind", .str "value"), ("value", .obj [("data", .int 1)])],
    .obj [("name", .str "gated"), ("kind", .str "flow"), ("flow", .obj [("steps", .arr [
      .obj [("id", .str "a"), ("use", .str "one"), ("when", condition)]])])]])])]

def gatedStep (condition : Json) : Step where
  id := "a"
  use := "one"
  condition

def gated (condition : Json) : Action where
  name := "gated"
  kind := "flow"
  path := "/api/actions/gated"
  flow := some { steps := [gatedStep condition] }

def gatedContext (condition : Json) : Action.Context :=
  (Action.Context.start [] .null .null).withRegistry
    [("one", Action.giving "one" 1), ("gated", gated condition)]

def told : Json :=
  .obj [("$truthy", .str "input.go")]

theorem gated_executes_nothing :
    ∃ app, Spec.check (gatedSpec told) = .ok app ∧ gated told ∈ app.actions ∧
      ∀ run last, (ending (Action.runBlock run (gatedContext told) last
        (.single (gatedStep told)) {})).deeds = ({} : Action.World).deeds := by
  have actions : (Spec.check (gatedSpec told)).map Spec.App.actions =
      .ok [Action.giving "one" 1, gated told] := rfl
  obtain ⟨app, accepted, given⟩ := except_map_eq_ok actions
  have mem : gated told ∈ app.actions := by simp [given]
  have result : Condition.eval told ((gatedContext told).view {}) = .ok false := by
    decide +kernel
  refine ⟨app, accepted, mem, fun run last => ?_⟩
  have gates := (conditions_gate accepted).1 (gated told) mem _ rfl (.single (gatedStep told))
    List.mem_cons_self
  obtain ⟨executed, executes, which⟩ := (gates.1 run (gatedContext told) last {}).1
    fun s hs => by
      cases List.mem_singleton.mp hs
      exact ⟨false, result⟩
  have none : executed = [] := by
    refine List.eq_nil_iff_forall_not_mem.mpr fun s hs => ?_
    have inside := executes.order.subset hs
    cases List.mem_singleton.mp inside
    rcases (which _ inside).mp hs with holds | same
    · cases result.symm.trans holds
    · cases same
  rw [executes.deeds, none]
  rfl

/-- A step with a condition that is plainly false runs. -/
theorem gated_executes_false :
    (Spec.check (gatedSpec (.bool false))).map Spec.App.actions =
        .ok [Action.giving "one" 1, gated (.bool false)] ∧
      (∀ context, Condition.eval (.bool false) context = .ok false) ∧
      ∃ w, Action.run (gated (.bool false)) (gatedContext (.bool false)) {} =
          .ok (Action.answer true 200 (.int 1)) w ∧
        w.calls = [gated (.bool false), Action.giving "one" 1] :=
  ⟨rfl, fun _ => rfl, _, rfl, rfl⟩

end Appwright.Server
