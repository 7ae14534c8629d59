import Appwright.Proofs.Action.Group
import Appwright.Proofs.Action.Returned

/-!
# Conditions of steps

A step may have a condition. It is asked for where the block of the step begins, so the members of a
group are all decided before one of them runs. A condition that counts as nothing is not evaluated
at all: an empty one holds anyway, but one that is plainly false does not, and its step runs
(`isOpen_iff`).

What a block does outside of its flow (`World.deeds`) is what its open steps do, one after another,
and nothing else (`executes_runBlock`); the others are recorded as skipped.
-/

namespace Appwright.Action

/-! ## Access

The check compares a step with the flow it stands in and with nothing else, and flows use flows, in
circles too. Because the order of access levels is transitive, that is enough (`run_calls_within`).
-/

theorem stays_calls_send (req : Outbound.Request) (lim : Float) :
    Keeps (Stays World.calls) (send req lim) :=
  fun _ => rfl

theorem stays_calls_pauseAfter (n : Nat) : Keeps (Stays World.calls) (pauseAfter n) := fun _ => rfl

theorem stays_calls_onStore {α : Type} (op : Store.Action α) : Keeps (Stays World.calls) (onStore op) := by
  intro w
  unfold onStore
  cases op.run w.store with
  | ok | error => rfl

theorem accessRank_le_of_actionOf {parent act : Spec.Action} {registry : Entries Spec.Action}
    {step : Spec.Step} (hf : actionOf parent registry step = .ok act) :
    accessRank act.auth ≤ accessRank parent.auth := by
  unfold actionOf at hf
  split at hf
  · cases hf
  · split at hf
    next ha => cases hf
    next hw =>
      cases hf
      exact Nat.le_of_not_lt hw

def Within (top a : Spec.Action) : Prop :=
  accessRank a.auth ≤ accessRank top.auth

theorem Keeps.within {α : Type} {x : Run α} (h : Keeps (Stays World.calls) x)
    (top : Spec.Action) : Keeps (Grows World.calls (Within top)) x :=
  h.mono fun _ _ hs => hs.grows

/-- What runs below an action is within it. The induction is on the levels that are left: the
actions of a flow's steps are within the flow, and what runs below them is within them. -/
theorem grows_within_runAt (ls : Nat) (act : Spec.Action) (c : Context) (w : World) :
    Grows World.calls (Within act) { w with calls := w.calls ++ [act] } (ending (runAt ls act c w)) := by
  induction ls using Nat.strongRecOn generalizing act c w with
  | ind ls ih =>
    have hp (n : Nat) := Keeps.within (stays_calls_pauseAfter n) act
    have hs (req : Outbound.Request) (lim : Float) := Keeps.within (stays_calls_send req lim) act
    refine ending_runAt (fun call _ => ?_) (fun call _ => ?_) (fun call _ => ?_) ?_ w
    · exact fun w => ending_runHttp (fun req _ _ => hs req) hp
    · exact keeps_runLlm (fun _ req _ _ => hs req) hp
    · exact keeps_runDb fun op => Keeps.within (stays_calls_onStore op) act
    · intro left flow hm hpa
      have hbl : Blind (Grows World.calls (Within act)) := fun w steps vars =>
        Stays.grows (rfl : Stays World.calls w { w with steps, vars })
      refine hbl.keeps_runFlowBody (fun registry step used inp due hf w => ?_) hp
      have hb := accessRank_le_of_actionOf hf
      -- The used action begins within the flow, and what it runs is within it.
      have hbe : Grows World.calls (Within act) w { w with calls := w.calls ++ [used] } :=
        ⟨[used], rfl, fun a ha => by rw [List.mem_singleton.1 ha]; exact hb⟩
      have hr := (ih left (by omega) used (stepContext c inp due) w).mono fun a ha => Nat.le_trans ha hb
      exact trans_of _ hbe hr

/-- Whatever runs below an action, in whatever context and world, is within it. The action itself
comes first among what runs. -/
theorem run_calls_within (action : Spec.Action) (c : Context) (w : World) :
    ∃ below, (ending (run action c w)).calls = w.calls ++ action :: below ∧
      ∀ a ∈ below, accessRank a.auth ≤ accessRank action.auth := by
  obtain ⟨below, grown, within⟩ := grows_within_runAt (maxDepth + 1 - c.depth).toNat action c w
  refine ⟨below, ?_, within⟩
  rw [show w.calls ++ action :: below = (w.calls ++ [action]) ++ below by simp]
  exact grown

end Appwright.Action

namespace Appwright

/-! ## Conditions -/

namespace Condition

theorem eval_of_not_truthy {c : Json} (hf : checkForm c = .ok ()) (hn : c.truthy = false) :
    c = .bool false ∨ ∀ ctx, eval c ctx = .ok true := by
  cases c with
  | null => exact .inr fun ctx => rfl
  | bool b =>
    cases hn
    exact .inl rfl
  | arr xs =>
    cases xs with
    | nil => exact .inr fun ctx => rfl
    | cons c cs => cases hn
  | obj ms =>
    cases ms with
    | nil => exact .inr fun ctx => rfl
    | cons e rest => cases hn
  | int | float | str => cases hf

end Condition

namespace Action

variable {run : Spec.Step → Run Result} {c : Context} {w w' : World} {s : Spec.Step}

/-! ## Open steps -/

/-- Whether a condition that comes to a truth value lets its step run: it counts as nothing, or it
holds. -/
def isOpen (condition : Json) (context : Json.Members) : Bool :=
  !condition.truthy || (Condition.eval condition context).toOption.getD false

theorem isOpen_iff {cond : Json} {ctx : Json.Members} (hf : Condition.checkForm cond = .ok ()) :
    isOpen cond ctx ↔ Condition.eval cond ctx = .ok true ∨ cond = .bool false := by
  unfold isOpen
  cases hn : cond.truthy with
  | false =>
    have or : cond = .bool false ∨ Condition.eval cond ctx = .ok true :=
      (Condition.eval_of_not_truthy hf hn).imp_right fun holds => holds ctx
    simpa using or.symm
  | true =>
    have ho : cond ≠ .bool false := by
      rintro rfl
      cases hn
    cases hr : Condition.eval cond ctx with
    | error | ok => simp [ho, Except.toOption]

def Decided (c : Context) (w : World) (steps : List Spec.Step) : Prop :=
  ∀ s ∈ steps, ∃ b, Condition.eval s.condition (c.view w) = .ok b

theorem shouldRun_eq_ok (hd : ∃ b, Condition.eval s.condition (c.view w) = .ok b) :
    shouldRun c s w = .ok (isOpen s.condition (c.view w)) w := by
  obtain ⟨b, hr⟩ := hd
  unfold shouldRun isOpen
  cases hn : s.condition.truthy with
  | false => rfl
  | true =>
    simp only [Bool.not_true, Bool.false_eq_true, if_false, Bool.false_or]
    rw [get_bind, hr]
    rfl

theorem shouldRun_eq_error (hf : Condition.checkForm s.condition = .ok ())
    {e : Condition.Error} (hr : Condition.eval s.condition (c.view w) = .error e) :
    ∃ e, shouldRun c s w = .error e w := by
  unfold shouldRun
  cases hn : s.condition.truthy with
  | false =>
    rcases Condition.eval_of_not_truthy hf hn with hs | holds
    · rw [hs] at hr
      cases hr
    · cases (holds _).symm.trans hr
  | true =>
    simp only [Bool.not_true, Bool.false_eq_true, if_false]
    rw [get_bind, hr]
    exact ⟨_, rfl⟩

def openSteps (c : Context) (w : World) (steps : List Spec.Step) : List Spec.Step :=
  steps.filter fun s => isOpen s.condition (c.view w)

theorem fst_filter_isOpen (c : Context) (w : World) (steps : List Spec.Step) :
    ((steps.map fun s => (s, isOpen s.condition (c.view w))).filter Prod.snd).map Prod.fst =
      openSteps c w steps := by
  rw [List.filter_map, List.map_map]
  exact List.map_id _

variable {ss : List Spec.Step} {u : Block} (last : Option Result)

theorem decideAll_eq_ok (hd : Decided c w ss) :
    decideAll c ss w = .ok (ss.map fun s => (s, isOpen s.condition (c.view w))) w := by
  induction ss with
  | nil => rfl
  | cons s rest ih =>
    obtain ⟨first, ho⟩ := List.forall_mem_cons.1 hd
    rw [decideAll, bind_of_ok (shouldRun_eq_ok first), bind_of_ok (ih ho)]
    rfl

theorem decideAll_eq_error (hfo : ∀ s ∈ ss, Condition.checkForm s.condition = .ok ())
    (hw : ¬ Decided c w ss) : ∃ e, decideAll c ss w = .error e w := by
  induction ss with
  | nil => exact absurd nofun hw
  | cons s rest ih =>
    obtain ⟨form, hfo⟩ := List.forall_mem_cons.1 hfo
    cases hr : Condition.eval s.condition (c.view w) with
    | error e =>
      obtain ⟨e', hf⟩ := shouldRun_eq_error form hr
      exact ⟨e', bind_of_error hf⟩
    | ok b =>
      have hl : ¬ Decided c w rest := fun hd => hw (List.forall_mem_cons.2 ⟨⟨b, hr⟩, hd⟩)
      obtain ⟨e, hf⟩ := ih hfo hl
      exact ⟨e, (bind_of_ok (shouldRun_eq_ok ⟨b, hr⟩)).trans (bind_of_error hf)⟩

/-! ## What blocks do -/

/-- What an action does outside of the results and variables that steps share. -/
def World.deeds (w : World) : Outbound.Session × Store × List Spec.Action :=
  (w.session, w.store, w.calls)

def runEach (run : Spec.Step → Run Result) (steps : List Spec.Step) (w : World) : World :=
  steps.foldl (fun v s => ending (run s v)) w

theorem writable_deeds (ids : List String) : Writable (Stays World.deeds) ids :=
  ⟨fun _ _ => rfl, fun _ _ _ _ => rfl⟩

theorem ending_runMembers (run : Spec.Step → Run Result) (ms : List (Spec.Step × Bool)) (w : World) :
    ending (runMembers run ms w) = runEach run ((ms.filter Prod.snd).map Prod.fst) w := by
  induction ms generalizing w with
  | nil => rfl
  | cons m rest ih =>
    obtain ⟨s, b⟩ := m
    cases b with
    | false =>
      rw [runMembers_cons_false]
      exact ih w
    | true =>
      obtain ⟨rs, w', ran, -⟩ := exists_runMembers run rest (ending (run s w))
      rw [runMembers_cons_true, map_eq_ok ran, ending_ok]
      have rest := ih (ending (run s w))
      rw [ran, ending_ok] at rest
      exact rest

structure Executes (run : Spec.Step → Run Result) (c : Context) (last : Option Result) (u : Block)
    (w : World) (executed : List Spec.Step) : Prop where
  order : executed.Sublist u.steps
  /-- What the block does is what these steps do, one after another. -/
  deeds : (ending (runBlock run c last u w)).deeds = (runEach run executed w).deeds
  /-- If the flow goes on, the others are recorded as skipped. -/
  skips : ∀ s ∈ u.steps, s ∉ executed → ∀ last' w',
    runBlock run c last u w = .ok (.goOn last') w' → w'.steps.get? s.id = some (.obj skipped)

theorem executes_single (hde : ∃ b, Condition.eval s.condition (c.view w) = .ok b) :
    Executes run c last (.single s) w (openSteps c w [s]) := by
  have hs := (writable_deeds ([s].map Spec.Step.id)).keeps_settle c s List.mem_cons_self
  have hd := shouldRun_eq_ok hde
  cases ho : isOpen s.condition (c.view w) with
  | true =>
    have he : openSteps c w [s] = [s] := by simp [openSteps, ho]
    rw [ho] at hd
    rw [he]
    refine ⟨.refl _, ?_, fun t mem left => absurd mem left⟩
    rw [runBlock, bind_of_ok hd, if_pos rfl]
    show _ = (ending (run s w)).deeds
    cases ran : run s w with
    | error e w₁ => rw [bind_of_error ran, ending_error, ending_error]
    | ok res w₁ =>
      have hr : Keeps (Stays World.deeds) (do
          settle c s res
          return if goesOn s res then .goOn (some res) else .stop res : Run Progress) :=
        (hs res).yields
      rw [bind_of_ok ran]
      exact hr w₁
  | false =>
    have he : openSteps c w [s] = [] := by simp [openSteps, ho]
    rw [ho] at hd
    rw [he]
    refine ⟨List.nil_sublist _, ?_, ?_⟩
    · have hr : Keeps (Stays World.deeds) (do
          settle c s skipped
          return .goOn (some skipped) : Run Progress) :=
        (hs skipped).yields
      rw [runBlock, bind_of_ok hd, if_neg Bool.false_ne_true]
      exact hr w
    · intro t mem _ last' w' ran
      cases List.mem_singleton.1 mem
      rw [runBlock, bind_of_ok hd] at ran
      obtain ⟨_, _, hse, ran⟩ := bind_eq_ok ran
      cases ran
      exact get?_steps_of_settle hse

theorem executes_group (hd : (ss.map Spec.Step.id).Nodup) (hde : Decided c w ss) :
    Executes run c last (.group ss) w (openSteps c w ss) := by
  obtain ⟨rs, w₁, ran, ids⟩ := exists_runMembers run (ss.map fun s => (s, isOpen s.condition (c.view w))) w
  have ho : runBlock run c last (.group ss) w = mergeResults c (Entries.ofPairs rs) last ss
        { w₁ with steps := w.steps, vars := w.vars } := by
    rw [runBlock, bind_of_ok (decideAll_eq_ok hde), bind_of_ok (onCopy_of_ok ran)]
  refine ⟨List.filter_sublist, ?_, ?_⟩
  · have hm : Keeps (Stays World.deeds) (mergeResults c (Entries.ofPairs rs) last ss) :=
      closed_keeps.mergeResults _ last ((writable_deeds _).keeps_settle c)
    have he := ending_runMembers run (ss.map fun s => (s, isOpen s.condition (c.view w))) w
    rw [ran, ending_ok, fst_filter_isOpen] at he
    rw [ho, ← he]
    exact hm _
  · intro s mem left last' w' hw
    rw [ho] at hw
    have hc : isOpen s.condition (c.view w) = false := by
      by_contra hot
      exact left (List.mem_filter.2 ⟨mem, by simpa using hot⟩)
    have hab : s.id ∉ rs.map Prod.fst := by
      rw [ids]
      intro ha
      obtain ⟨m, ha, hs⟩ := List.mem_map.1 ha
      obtain ⟨ha, hop⟩ := List.mem_filter.1 ha
      obtain ⟨t, mem', rfl⟩ := List.mem_map.1 ha
      rw [List.inj_on_of_nodup_map hd mem' mem hs, hc] at hop
      cases hop
    rw [get?_steps_of_mergeResults hd hw mem, Entries.get?_ofPairs_of_not_mem hab]
    rfl

theorem executes_runBlock (hdi : (u.steps.map Spec.Step.id).Nodup)
    (hd : Decided c w u.steps) : Executes run c last u w (openSteps c w u.steps) := by
  cases u with
  | single s => exact executes_single last (hd s List.mem_cons_self)
  | group steps => exact executes_group last hdi hd

theorem runBlock_eq_error (hfo : ∀ s ∈ u.steps, Condition.checkForm s.condition = .ok ())
    (hw : ¬ Decided c w u.steps) : ∃ e, runBlock run c last u w = .error e w := by
  cases u with
  | single s =>
    obtain ⟨form, -⟩ := List.forall_mem_cons.1 hfo
    cases hr : Condition.eval s.condition (c.view w) with
    | ok b =>
      refine absurd (fun t mem => ?_) hw
      cases List.mem_singleton.1 mem
      exact ⟨b, hr⟩
    | error e =>
      obtain ⟨e', hf⟩ := shouldRun_eq_error form hr
      exact ⟨e', bind_of_error hf⟩
  | group steps =>
    obtain ⟨e, hf⟩ := decideAll_eq_error hfo hw
    exact ⟨e, bind_of_error hf⟩

theorem sublist_of_mem_blocks (mem : u ∈ blocks ss) : u.steps.Sublist ss := by
  obtain ⟨pre, post, cut⟩ := List.append_of_mem mem
  rw [← flatMap_steps_blocks ss, cut, List.flatMap_append, List.flatMap_cons]
  exact (List.sublist_append_left _ _).trans (List.sublist_append_right _ _)

/-! ## Actions of open steps -/

/-- A step gets as far as its action: the flow may use it, the input for it can be made, and there
is time left. -/
structure Ready (parent : Spec.Action) (registry : Entries Spec.Action) (c : Context)
    (s : Spec.Step) (w : World) (action : Spec.Action) : Prop where
  found : actionOf parent registry s = .ok action
  input : s.input.isNull = true ∨ ∃ input, render c s.input w = .ok input w
  timely : isPast (stepDeadline c s w.session.clock) w.session.clock = false

abbrev Begins : World → World → Prop :=
  Grows World.calls fun _ => True

def World.began (w : World) (action : Spec.Action) : World :=
  { w with calls := w.calls ++ [action] }

theorem begins_runAt (ls : Nat) (act : Spec.Action) (c : Context) (w : World) :
    Begins (w.began act) (ending (runAt ls act c w)) :=
  (grows_within_runAt ls act c w).mono fun _ _ => trivial

theorem keeps_begins_runAt (ls : Nat) (act : Spec.Action) (c : Context) :
    Keeps Begins (runAt ls act c) := by
  intro w
  have first : Begins w (w.began act) := ⟨[act], rfl, fun _ _ => trivial⟩
  exact trans_of _ first (begins_runAt ls act c w)

theorem begins_stepAttempts {left : Nat} {act : Spec.Action} {due : Option Float}
    (ht : isPast due w.session.clock = false) (more num : Nat) :
    Begins (w.began act) (ending (stepAttempts (runAt left act c) due false more num w)) := by
  have hp (n : Nat) : Keeps Begins (pauseAfter n) := (stays_calls_pauseAfter n).mono fun _ _ hs => hs.grows
  have hb : Begins (w.began act) (ending (caught (runAt left act c) w)) := begins_runAt left act c w
  have ho : ¬ isPast due w.session.clock := by simp [ht]
  unfold stepAttempts
  rw [get_bind, if_neg ho]
  refine ending_bind_from hb fun out => .ite (fun _ => keeps_pure _) fun _ => ?_
  cases more with
  | zero =>
    exact keeps_get.bind fun _ => .ite (fun _ => keeps_pure _) fun _ => keeps_pure _
  | succ more =>
    refine (hp _).bind fun _ => ?_
    exact closed_keeps.stepAttempts (fun hsa => by rw [hsa])
      (keeps_caught (keeps_begins_runAt left act c)) hp _ _ _

theorem toWhole_of_whole? {v : Json} {n : Int} (hw : v.whole? = some n) : v.toWhole = .ok n := by
  cases v with
  | int | bool => exact congrArg Except.ok (Option.some.inj hw)
  | _ => cases hw

theorem begins_runStep {parent act : Spec.Action} {registry : Entries Spec.Action} (left : Nat)
    (hr : Ready parent registry c s w act) (retries : Spec.Between 0 10 s.retries) :
    Begins (w.began act) (ending (runStep (runAt left) parent registry c s w)) := by
  obtain ⟨n, hw, low, -⟩ := retries
  have hf : attempt id (actionOf parent registry s) w = .ok act w := by
    rw [hr.found]
    rfl
  -- Whatever the input is, the action is attempted with it.
  have hre (inp : Json) : Begins (w.began act) (ending ((do
      let due := stepDeadline c s (← get).session.clock
      withRetries s.retries "step failed" fun more =>
        stepAttempts (runAt left act (stepContext c inp due)) due false more 0 : Run Result) w)) := by
    rw [get_bind, withRetries_of_ok (toWhole_of_whole? hw) low]
    exact begins_stepAttempts hr.timely n.toNat 0
  unfold runStep
  rw [bind_of_ok hf]
  by_cases null : s.input.isNull
  · rw [if_pos null]
    exact hre _
  · obtain ⟨inp, hm⟩ := hr.input.resolve_left null
    rw [if_neg null, bind_of_ok hm]
    exact hre inp

end Action

end Appwright

namespace Appwright.Action

/-! ## What a flow fails with

What the actions of its steps fail with becomes a result, so a flow fails only for reasons of its own.
If it is formed as accepted flows are, and may use the actions of its steps, there is one left: a
condition or a template that cannot be evaluated (`isEvaluation_of_runFlowBody`).
-/

variable {run : Spec.Step → Run Result} {c : Context} {w w' : World} {reg : Entries Spec.Action}
  {flow : Spec.Flow} {par : Spec.Action}

/-! ## Steps and units -/

/-- A program fails only where it evaluates a condition or a template. -/
abbrev Evaluates {α : Type} (x : Run α) : Prop :=
  FailsOnly (fun e => e.isEvaluation = true) x

theorem closed_evaluates : Closed Evaluates Eq fun e => e.isEvaluation where
  pure := failsOnly_pure
  throw ha := failsOnly_throw ha
  reads _ next := failsOnly_get.bind fun w _ _ _ => next w
  bind := FailsOnly.bind
  steps := congrArg World.steps
  vars := congrArg World.vars
  evaluation := id

theorem evaluates_caught (x : Run Result) : Evaluates (caught x) := .of_exists_ok fun _ => ⟨_, _, rfl⟩

theorem evaluates_settle (c : Context) {s : Spec.Step} (hs : Spec.Settings s.assign)
    (res : Result) : Evaluates (settle c s res) := by
  refine (failsOnly_modify _).bind fun _ _ _ _ => closed_evaluates.assign (fun _ _ => failsOnly_modify _) ?_ ?_
  · intro ms hsa hu
    have hi := hs.names "" (by rw [hsa]; exact hu)
    exact absurd hi (by decide)
  · intro hg ho
    rcases hs.kind with null | ⟨ms, hsa⟩
    · rw [null] at hg
      cases hg
    · exact absurd hsa (ho ms)

theorem evaluates_runStep (runner : Runner) {used : Spec.Action} (c : Context) {s : Spec.Step}
    (hfo : actionOf par reg s = .ok used) {n : Int}
    (hc : s.retries.toWhole = .ok n) : Evaluates (runStep runner par reg c s) := by
  refine closed_evaluates.runStep (timed_eq c s) (fun e hf => ?_) (fun e hf => ?_)
    (fun _ _ _ _ => evaluates_caught _) fun _ => failsOnly_modify _
  · cases hfo.symm.trans hf
  · cases hc.symm.trans hf

/-! ## Flows -/

abbrev KnownMode (s : Spec.Step) : Prop :=
  ∀ mode, s.onError = some mode → mode ∈ ["stop", "continue", "return"]

structure Formed (flow : Spec.Flow) : Prop where
  ids : (flow.steps.map Spec.Step.id).Nodup
  forms : ∀ s ∈ flow.steps, Condition.checkForm s.condition = .ok ()
  retries : ∀ s ∈ flow.steps, ∃ n, s.retries.toWhole = .ok n
  settings : ∀ s ∈ flow.steps, Spec.Settings s.assign
  modes : ∀ s ∈ flow.steps, KnownMode s

theorem formed_of_accepted {spec : Json.Members} {app : Spec.App}
    (ha : Spec.check spec = .ok app) {a : Spec.Action} (mem : a ∈ app.actions)
    (hp : a.flow = some flow) : Formed flow := by
  have hc := (Spec.flowChecked_of_accepted ha mem hp).2
  refine ⟨(Spec.sound_of_accepted ha mem hp).2.ids, fun s hs => (hc s hs).form, ?_,
    fun s hs => (hc s hs).written.assign, fun s hs => (hc s hs).written.onError⟩
  intro s hs
  obtain ⟨-, -, ⟨n, hw, -⟩, -⟩ := (hc s hs).passed
  exact ⟨n, toWhole_of_whole? hw⟩

theorem runFlowBody_of_registry {runner : Runner} (hk : registryOf c = .ok reg) (w : World) :
    runFlowBody runner par flow c w = (do
      startVars { c with shared := true } flow.vars
      let progress ← runBlocks (runStep runner par reg { c with shared := true })
        { c with shared := true } none (blocks flow.steps)
      Action.finish flow progress : Run Result) w := by
  unfold runFlowBody
  rw [hk]
  rfl

theorem isEvaluation_of_runFlowBody {runner : Runner} (hk : registryOf c = .ok reg)
    (hp : ∀ s ∈ flow.steps, ∃ used, actionOf par reg s = .ok used)
    (hfo : Formed flow) {e : Error} (hf : runFlowBody runner par flow c w = .error e w') :
    e.isEvaluation := by
  refine closed_evaluates.runFlowBody (fun e hf => ?_) (fun _ => failsOnly_modify _)
    (fun reg' hk' u hb => ?_) w e w' hf
  · cases hk.symm.trans hf
  cases hk.symm.trans hk'
  refine ⟨fun s mem => ?_, fun s ha => ?_, fun ms _ => .of_exists_ok fun w => ?_⟩
  · exact evaluates_settle _ (hfo.settings s (mem_of_mem_blocks hb mem))
  · have mem : s ∈ flow.steps := mem_of_mem_blocks (ha ▸ hb) List.mem_cons_self
    obtain ⟨used, hfou⟩ := hp s mem
    obtain ⟨n, hc⟩ := hfo.retries s mem
    exact evaluates_runStep runner _ hfou hc
  · -- What members fail with is caught, so running them does not fail.
    obtain ⟨rs, w', ran, -⟩ := exists_runMembers _ ms w
    exact ⟨rs, _, onCopy_of_ok ran⟩

end Appwright.Action
