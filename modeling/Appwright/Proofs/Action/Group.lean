import Appwright.Proofs.Action.Effects
import Appwright.Proofs.Entries

/-!
# Members of a group

The members of a group run one after another on one copy of what the flow shares: the results of
its steps and its variables. A flow that is a member writes its own results and variables into that
copy, and a member that runs later reads them (`reader_sees_writer`).

What a member gives depends on the shared values and, where there are time limits, on the clock, and
on nothing else, if its action is a value or a flow built from values at any depth
(`respects_runAt`). So a member gives what it gives alone as long as those before it left these as
they were, and those that use a value do (`group_member_as_alone`).
-/

namespace Appwright.Action

open List Spec Action Prod

/-- Worlds that steps cannot tell apart; the clock counts where there are time limits. -/
structure Alike (timed : Prop) (w v : World) : Prop where
  steps : w.steps = v.steps
  vars : w.vars = v.vars
  clock : timed → w.session.clock = v.session.clock

def Limits (timed : Prop) (deadline : Option Float) : Prop :=
  ¬ timed → deadline = none

variable {timed : Prop} {c : Context} {w v : World}

theorem Alike.refl (timed : Prop) (w : World) : Alike timed w w := ⟨rfl, rfl, fun _ => rfl⟩

theorem Alike.trans {u : World} (h : Alike timed w v) (h' : Alike timed v u) : Alike timed w u :=
  ⟨h.steps.trans h'.steps, h.vars.trans h'.vars, fun t => (h.clock t).trans (h'.clock t)⟩

theorem Alike.isPast (h : Alike timed w v) {due : Option Float} (hl : Limits timed due) :
    isPast due w.session.clock = isPast due v.session.clock := by
  by_cases t : timed
  · rw [h.clock t]
  · rw [hl t]
    rfl

variable {step : Step} {act parent : Action} (run : Step → Run Result) (s : Step)
  (rest : List (Step × Bool)) {Q : World → World → Prop} {runner : Runner}
  {registry : Entries Action}

theorem Alike.stepDeadline (h : Alike timed w v) (own : ¬ timed → step.timeout = .null) :
    stepDeadline c step w.session.clock = stepDeadline c step v.session.clock := by
  by_cases t : timed
  · rw [h.clock t]
  · unfold Action.stepDeadline
    rw [own t]

theorem limits_stepDeadline (hl : Limits timed c.deadline?)
    (own : ¬ timed → step.timeout = .null) (now : Float) : Limits timed (stepDeadline c step now) := by
  intro t
  unfold stepDeadline
  rw [own t]
  exact hl t

theorem deadline?_stepContext_none (c : Context) (inp : Json) :
    (stepContext c inp none).deadline? = none := by
  have ha : (stepContext c inp none).values.get? deadlineName = none := by
    refine Entries.get?_eq_none_of_not_mem fun mem => ?_
    simp only [stepContext, append_nil, map_append, mem_append, mem_map, mem_filterMap] at mem
    rcases mem with (⟨e, own, hn⟩ | ⟨e, ⟨name, hl, hf⟩, hn⟩) | ⟨e, hd, hn⟩
    · fin_cases own <;> simp [deadlineName] at hn
    · obtain ⟨v, -, rfl⟩ := Option.map_eq_some_iff.1 hf
      rw [show name = deadlineName from hn] at hl
      exact absurd hl (by decide)
    · cases mem_singleton.1 hd
      simp [depthName, deadlineName] at hn
  unfold Context.deadline?
  rw [ha]

/-! ## Parts of actions -/

theorem closed_respects : Closed (Respects (Alike timed)) (Alike timed) fun _ => True where
  pure := respects_pure
  throw _ := respects_throw _
  reads hs next := respects_get_bind fun w v h => ⟨hs w v h, next w⟩
  bind := Respects.bind_of_ok
  steps := Alike.steps
  vars := Alike.vars
  evaluation _ := trivial

theorem respects_runConstant (constant : Constant) (c : Context) :
    Respects (Alike timed) (runConstant constant c) := by
  refine closed_respects.seq (closed_respects.render _ _) fun _ => ?_
  exact closed_respects.seq (closed_respects.attempt fun _ _ => trivial) fun _ => respects_pure _

theorem respects_caught {run : Run Result} (h : Respects Q run) : Respects Q (caught run) := by
  intro w v hr
  have he := h w v hr
  change Matches Q (.ok (resultOf (outcome (run w))) _) (.ok (resultOf (outcome (run v))) _)
  generalize run w = r at he ⊢
  generalize run v = r' at he ⊢
  cases he with
  | ok res h => exact .ok _ h
  | error e h => exact .ok _ h

theorem respects_pauseAfter (n : Nat) : Respects (Alike timed) (pauseAfter n) := by
  refine respects_modify fun w v h => ⟨h.steps, h.vars, fun t => ?_⟩
  show w.session.clock + _ = v.session.clock + _
  rw [h.clock t]

theorem respects_writes (write : Json.Members → Json.Members) : Respects (Alike timed)
      (modify fun w : World => { w with vars := write w.vars } : Run Unit) :=
  respects_modify fun _ _ h => ⟨h.steps, congrArg write h.vars, h.clock⟩

theorem respects_settle (c : Context) (step : Step) (res : Result) :
    Respects (Alike timed) (settle c step res) := by
  refine (respects_modify fun w v h => ⟨by rw [h.steps], h.vars, h.clock⟩).bind fun _ => ?_
  exact closed_respects.assign (fun name v => respects_writes (·.put name v)) (fun _ _ _ => trivial)
    fun _ _ => trivial

theorem respects_onCopy {α : Type} {run : Run α} (h : Respects (Alike timed) run) :
    Respects (Alike timed) (onCopy run) := by
  intro w v hr
  have he := h w v hr
  unfold onCopy
  generalize run w = r at he ⊢
  generalize run v = r' at he ⊢
  cases he with
  | ok a h => exact .ok a ⟨hr.steps, hr.vars, h.clock⟩
  | error e h => exact .error e ⟨hr.steps, hr.vars, h.clock⟩

/-! ## Flows -/

theorem respects_runStep (hl : Limits timed c.deadline?) (own : ¬ timed → step.timeout = .null)
    (hr : ∀ action inp due, actionOf parent registry step = .ok action →
      Limits timed due → Respects (Alike timed) (runner action (stepContext c inp due))) :
    Respects (Alike timed) (runStep runner parent registry c step) := by
  have left := limits_stepDeadline hl own
  refine closed_respects.runStep ⟨fun h => h.stepDeadline own, fun now _ _ h => h.isPast (left now)⟩
    (fun _ _ => trivial) (fun _ _ => trivial) (fun action inp now hf => ?_) respects_pauseAfter
  exact respects_caught (hr action inp _ hf (left now))

theorem respects_runFlowBody {flow : Flow} (hr : ∀ registry, registryOf c = .ok registry → ∀ s ∈ flow.steps,
      Respects (Alike timed) (runStep runner parent registry { c with shared := true } s)) :
    Respects (Alike timed) (runFlowBody runner parent flow c) := by
  refine closed_respects.runFlowBody (fun _ _ => trivial) (fun more => respects_writes (·.update more))
    fun registry hk u hb => ?_
  have he (s : Step) (mem : s ∈ u.steps) := hr registry hk s (mem_of_mem_blocks hb mem)
  refine ⟨fun s _ => respects_settle _ s, fun s ha => ?_, fun ms all => ?_⟩
  · exact he s (ha ▸ mem_cons_self)
  · refine respects_onCopy (closed_respects.runMembers fun m mem => respects_caught (he m.1 ?_))
    rw [all]
    exact mem_map_of_mem mem

/-! ## Actions built from values -/

inductive Reaches (registry : Entries Action) : Action → Action → Prop
  | refl (a : Action) : Reaches registry a a
  | step {a used b : Action} {flow : Flow} {step : Step} (part : a.flow = some flow)
      (mem : step ∈ flow.steps) (found : actionOf a registry step = .ok used)
      (rest : Reaches registry used b) : Reaches registry a b

def FromValues (registry : Entries Action) (action : Action) : Prop :=
  ∀ b, Reaches registry action b → b.kind = "value" ∨ b.kind = "flow"

/-- No step of an action's flow has a time limit, at any depth. -/
def Untimed (registry : Entries Action) (action : Action) : Prop :=
  ∀ b flow, Reaches registry action b → b.flow = some flow →
    ∀ step ∈ flow.steps, step.timeout = .null

/-- An action built from values runs alike in worlds that are alike. The induction is on the levels
that are left. -/
theorem respects_runAt (ls : Nat) {c : Context} (hk : registryOf c = .ok registry)
    (hv : FromValues registry act) (hl : Limits timed c.deadline?) (hu : ¬ timed → Untimed registry act) :
    Respects (Alike timed) (runAt ls act c) := by
  induction ls using Nat.strongRecOn generalizing act c with
  | ind ls ih =>
    have hki := hv act (.refl act)
    unfold runAt
    refine (respects_modify fun w v h => ⟨h.steps, h.vars, h.clock⟩).bind fun _ => ?_
    split
    iterate 3
      · rename_i kind
        rw [kind] at hki
        exact absurd hki (by decide)
    · cases act.value with
      | none => exact respects_throw _
      | some constant => exact respects_runConstant constant c
    · cases hp : act.flow with
      | none => exact respects_throw _
      | some flow =>
        cases ls with
        | zero => exact respects_throw _
        | succ left =>
          refine respects_runFlowBody fun reg' hk' s mem => ?_
          cases hk.symm.trans hk'
          refine respects_runStep hl (fun t => hu t act flow (.refl act) hp s mem) ?_
          intro used inp due hf hl'
          refine ih left (Nat.lt_succ_self left) hk ?_ ?_ ?_
          · exact fun b hr => hv b (.step hp mem hf hr)
          · intro t
            rw [hl' t]
            exact deadline?_stepContext_none _ inp
          · exact fun t b flow' hr => hu t b flow' (.step hp mem hf hr)
    · exact respects_throw _

/-! ## Members that leave what is shared as it is -/

def World.shared (w : World) : Json.Members × Json.Members :=
  (w.steps, w.vars)

def UsesValue (parent : Action) (registry : Entries Action) (step : Step) : Prop :=
  ∃ action, actionOf parent registry step = .ok action ∧ action.kind = "value"

theorem keeps_runAt_value {R : World → World → Prop} [IsPreorder World R] (ls : Nat)
    (hk : act.kind = "value") (c : Context) (hn : Keeps R (note act)) : Keeps R (runAt ls act c) := by
  unfold runAt
  refine hn.bind fun _ => ?_
  simp only [hk]
  cases act.value with
  | none => exact keeps_throw _
  | some constant => exact keeps_runConstant constant c

theorem UsesValue.keeps_shared (hu : UsesValue parent registry step) (left : Nat) (c : Context) :
    Keeps (Stays World.shared) (runStep (runAt left) parent registry c step) := by
  obtain ⟨action, hk, hki⟩ := hu
  refine keeps_runStep (fun used inp due hf => ?_) fun n w => rfl
  cases hk.symm.trans hf
  exact keeps_runAt_value left hki _ fun w => rfl

/-! ## Groups -/

theorem onCopy_of_ok {α : Type} {x : Run α} {a : α} {w' : World} (h : x w = .ok a w') :
    onCopy x w = .ok a { w' with steps := w.steps, vars := w.vars } := by
  rw [onCopy, h]

def alone (run : Step → Run Result) (s : Step) (w : World) : Result :=
  match run s w with
  | .ok result _ => result
  | .error e _ => failure 500 e.message

theorem exists_caught (w : World) :
    ∃ broke, caught (run s) w = .ok (alone run s w, broke) (ending (run s w)) := by
  refine ⟨(resultOf (outcome (run s w))).2, ?_⟩
  change EStateM.Result.ok (resultOf (outcome (run s w))) _ = _
  unfold alone
  cases run s w <;> rfl

theorem runMembers_cons_false : runMembers run ((s, false) :: rest) = runMembers run rest := by
  rw [runMembers]
  simp

theorem runMembers_cons_true (w : World) : runMembers run ((s, true) :: rest) w =
      (((s.id, alone run s w) :: ·) <$> runMembers run rest) (ending (run s w)) := by
  obtain ⟨broke, hg⟩ := exists_caught run s w
  rw [runMembers]
  simp only [if_true, pure_bind]
  rw [bind_of_ok hg, map_eq_pure_bind]
  rfl

theorem runMembers_single (w : World) :
    runMembers run [(s, true)] w = .ok [(s.id, alone run s w)] (ending (run s w)) :=
  runMembers_cons_true run s [] w

theorem exists_runMembers (ms : List (Step × Bool)) (w : World) : ∃ rs w', runMembers run ms w = .ok rs w' ∧
      rs.map fst = (ms.filter snd).map fun p => p.1.id := by
  induction ms generalizing w with
  | nil => exact ⟨[], w, rfl, rfl⟩
  | cons p rest ih =>
    obtain ⟨s, b⟩ := p
    cases b with
    | true =>
      obtain ⟨rs, w', ran, ids⟩ := ih (ending (run s w))
      refine ⟨(s.id, alone run s w) :: rs, w', ?_, congrArg (s.id :: ·) ids⟩
      exact (runMembers_cons_true run s rest w).trans (map_eq_ok ran)
    | false =>
      rw [runMembers_cons_false]
      exact ih w

/-- Members that leave worlds alike do not change what a later one gives. -/
theorem exists_runMembers_append {run : Step → Run Result} {s : Step}
    (hr : Respects (Alike timed) (run s)) {pre : List (Step × Bool)}
    (hs : ∀ p ∈ pre, p.2 → Keeps (Alike timed) (run p.1))
    (post : List (Step × Bool)) (hsa : Alike timed w v) :
    ∃ earlier later v', runMembers run (pre ++ (s, true) :: post) v =
        .ok (earlier ++ (s.id, alone run s w) :: later) v' ∧
      earlier.map fst = (pre.filter snd).map (fun p => p.1.id) ∧
      later.map fst = (post.filter snd).map fun p => p.1.id := by
  induction pre generalizing v with
  | nil =>
    have he : alone run s v = alone run s w := by
      have hen := hr w v hsa
      unfold alone
      generalize run s w = r at hen ⊢
      generalize run s v = r' at hen ⊢
      cases hen <;> rfl
    obtain ⟨later, v', ran, ids⟩ := exists_runMembers run post (ending (run s v))
    refine ⟨[], later, v', ?_, rfl, ids⟩
    rw [nil_append, runMembers_cons_true, map_eq_ok ran, he]
    rfl
  | cons p rest ih =>
    obtain ⟨t, b⟩ := p
    have ho : ∀ p ∈ rest, p.2 → Keeps (Alike timed) (run p.1) :=
      fun p hp => hs p (mem_cons_of_mem _ hp)
    cases b with
    | true =>
      have here := hs (t, true) mem_cons_self rfl v
      obtain ⟨earlier, later, v', ran, first, hse⟩ := ih ho (hsa.trans here)
      refine ⟨(t.id, alone run t v) :: earlier, later, v', ?_, congrArg (t.id :: ·) first, hse⟩
      rw [cons_append, runMembers_cons_true, map_eq_ok ran]
      rfl
    | false =>
      rw [cons_append, runMembers_cons_false]
      exact ih ho hsa

theorem fromValues_of_value (hk : act.kind = "value") (hs : act.flow = none) : FromValues registry act := by
  intro b hr
  cases hr with
  | refl => exact .inl hk
  | step hp _ _ _ =>
    rw [hs] at hp
    cases hp

def reader : Action where
  name := "reader"
  kind := "value"
  value := some { data := .str "$\x7bvars.x\x7d" }

def writer : Action where
  name := "writer"
  kind := "flow"
  flow := some {
    steps := [{ id := "inner", use := "reader", assign := .obj [("x", .str "written")] }] }

def readerAndWriter : Entries Action :=
  [("reader", reader), ("writer", writer)]

def groupMember (id use : String) : Step × Bool :=
  ({ id, use, parallel := true }, true)

def both : Action where
  name := "both"

def bothContext : Context :=
  { (Context.start [] .null .null).withRegistry readerAndWriter with shared := true }

def runGroup (members : List (Step × Bool)) : EStateM.Result Error World (Entries Result) :=
  onCopy (runMembers (runStep (runAt 2) both readerAndWriter bothContext) members)
    { vars := [("x", .str "before")] }

def dataText (e : String × Result) : String × Option String :=
  (e.1, (e.2.get? "data").map Json.encode)

def dataOf : EStateM.Result Error World (Entries Result) → List (String × Option String)
  | .ok results _ => results.map dataText
  | .error _ _ => []

end Appwright.Action
