import Appwright.Action.Flow
import Appwright.Proofs.Run

/-!
# What actions can change

Whatever an action does to the world it does through a few primitives: it sends a request, it
pauses, it runs an operation on the store, it notes that it begins, and a flow writes the results
and the variables of its steps. Each theorem below says of one part of the machinery that it keeps
a relation between worlds if the primitives it uses keep it. A statement about all runs of all
actions then needs the primitives only, and for flows an induction on the levels that are left.
-/

namespace Appwright.Action

open List Spec Outbound

variable {R : World → World → Prop} [IsPreorder World R] {w w' : World}

variable {call : LlmCall} (c : Context) {chat : Chat}

theorem keeps_render (v : Json) : Keeps R (render c v) := keeps_get.bind fun _ => keeps_attempt _ _

theorem keeps_renderText (s : String) : Keeps R (renderText c s) :=
  keeps_get.bind fun _ => keeps_attempt _ _

/-! ## Calls of services -/

theorem keeps_backOff {n : Nat} (hp : Keeps R (pauseAfter n)) : Keeps R (backOff n) :=
  .ite (fun _ => hp) fun _ => keeps_throw _

theorem keeps_httpRequest (call : HttpCall) (c : Context) (alt : String) :
    Keeps R (httpRequest call c alt) := by
  refine (keeps_renderText _ _).bind fun url => ?_
  refine (keeps_attempt _ _).bind fun _ => ?_
  refine (keeps_render _ _).bind fun hs => ?_
  refine Keeps.ite (fun _ => keeps_pure _) fun _ => ?_
  exact keeps_get.bind fun _ => (keeps_render _ _).yields

theorem keeps_callAttempts {ε : Type} {send : Float → Run (Except ε Response)}
    {result : Except ε Response → Result} {limit : Json} (hs : ∀ lim, Keeps R (send lim))
    (hp : ∀ n, Keeps R (pauseAfter n)) (left num : Nat) :
    Keeps R (callAttempts c limit send result left num) := by
  induction left generalizing num with
  | zero => exact keeps_get.bind fun _ => (hs _).yields
  | succ more ih =>
    refine keeps_get.bind fun _ => (hs _).bind fun came => ?_
    exact .ite (fun _ => keeps_pure _) fun _ => (keeps_backOff (hp _)).bind fun _ => ih _

theorem keeps_withRetries {attempts : Nat → Run Result} (h : ∀ more, Keeps R (attempts more))
    (retries : Json) (complaint : String) : Keeps R (withRetries retries complaint attempts) :=
  (keeps_attempt _ _).bind fun _ => .ite (fun _ => keeps_pure _) fun _ => h _

omit [IsPreorder World R] in
theorem withRetries_of_ok {attempts : Nat → Run Result} {retries : Json} {complaint : String} {n : Int}
    (hc : retries.toWhole = .ok n) (hn : 0 ≤ n) :
    withRetries retries complaint attempts = attempts n.toNat := by
  rw [withRetries, hc]
  exact if_neg (Int.not_lt.2 hn)

theorem ending_runHttp {call : HttpCall} {c : Context} {alt : String}
    (hs : ∀ req w', httpRequest call c alt w = .ok req w' → ∀ lim, Keeps R (send req lim))
    (hp : ∀ n, Keeps R (pauseAfter n)) : R w (ending (runHttp call c alt w)) := by
  refine ending_bind (keeps_httpRequest call c alt w) fun req w' hr => ?_
  exact keeps_withRetries (fun _ => keeps_callAttempts c (hs req w' hr) hp _ _) _ _ w'

/-! ## Calls of language models -/

theorem keeps_llmSetting (tpl : Option String) (setting dflt : String) :
    Keeps R (llmSetting c tpl setting dflt) := by
  unfold llmSetting
  extract_lets alt
  have hr (own : String) : Keeps R (alt own) := by
    refine Keeps.ite (fun _ => keeps_pure _) fun _ => ?_
    split <;> exact keeps_pure _
  split
  · exact (keeps_pure _).bind hr
  · exact (keeps_pure _).bind hr
  · exact ((keeps_renderText _ _).map _).bind hr

theorem keeps_llmMessage (msg : Json) : Keeps R (llmMessage c msg) := by
  unfold llmMessage
  split
  · exact keeps_throw _
  · exact keeps_throw _
  · exact (keeps_renderText _ _).yields

theorem keeps_prepareChat (call : LlmCall) (c : Context) : Keeps R (prepareChat call c) := by
  refine (keeps_llmSetting _ _ _ _).bind fun _ => (keeps_llmSetting _ _ _ _).bind fun _ => ?_
  exact (Keeps.mapM (keeps_llmMessage c) _).yields

theorem keeps_sendChat {c : Context} (hs : ∀ req, chatRequest call chat = .ok req →
      checkUrl c.environment (chatAddress chat) = .ok () →
      ∀ lim, Keeps R (send req lim)) (lim : Float) :
    Keeps R (sendChat call c chat lim) := by
  unfold sendChat
  cases hm : chatRequest call chat with
  | error e => exact keeps_pure _
  | ok req =>
    cases ha : checkUrl c.environment (chatAddress chat) with
    | error e => exact keeps_pure _
    | ok u => exact (hs req hm ha lim).yields

theorem keeps_runLlm {c : Context} (hs : ∀ chat req, chatRequest call chat = .ok req →
      checkUrl c.environment (chatAddress chat) = .ok () →
      ∀ lim, Keeps R (send req lim)) (hp : ∀ n, Keeps R (pauseAfter n)) :
    Keeps R (runLlm call c) := by
  refine (keeps_prepareChat call c).bind fun chat => ?_
  exact keeps_withRetries (fun _ => keeps_callAttempts c (keeps_sendChat (hs chat)) hp _ _) _ _

/-! ## Operations on rows, and constants -/

theorem keeps_rowIdOf (id : Json) : Keeps R (rowIdOf c id) :=
  (keeps_render _ _).bind fun _ => keeps_attempt _ _

theorem keeps_fieldsOf (complaint : Error) (data : Json) : Keeps R (fieldsOf c complaint data) := by
  refine (keeps_render _ _).bind fun v => ?_
  cases v <;> first | exact keeps_pure _ | exact keeps_throw _

theorem keeps_runDb {call : DbCall} {c : Context}
    (hs : ∀ {α : Type} (op : Store.Action α), Keeps R (onStore op)) : Keeps R (runDb call c) := by
  refine (keeps_attempt _ _).bind fun ms => ?_
  split
  · exact keeps_throw _
  split
  · refine (keeps_attempt _ _).bind fun _ => (keeps_attempt _ _).bind fun _ => ?_
    exact (keeps_attempt _ _).bind fun _ => (hs _).yields
  · exact (keeps_rowIdOf _ _).bind fun _ => (hs _).yields
  · exact (keeps_fieldsOf _ _ _).bind fun _ => (hs _).yields
  · refine (keeps_rowIdOf _ _).bind fun _ => (keeps_fieldsOf _ _ _).bind fun _ => ?_
    exact (hs _).yields
  · exact (keeps_rowIdOf _ _).bind fun _ => (hs _).yields
  · exact keeps_throw _

theorem keeps_runConstant (constant : Constant) (c : Context) : Keeps R (runConstant constant c) :=
  (keeps_render _ _).bind fun _ => (keeps_attempt _ _).yields

/-! ## Flows -/

def Error.isEvaluation : Error → Bool
  | template _ => true
  | condition _ => true
  | stepCondition _ _ => true
  | _ => false

/-- A property that programs have if their parts have it. What they read is the same in worlds that
`Q` relates, and what they fail with has the property `P`. -/
structure Closed (T : ∀ {α : Type}, Run α → Prop) (Q : World → World → Prop) (P : Error → Prop) :
    Prop where
  pure : ∀ {α : Type} (a : α), T (pure a)
  throw : ∀ {α : Type} {e : Error}, P e → T (throw e : Run α)
  reads : ∀ {α : Type} {f : World → Run α}, (∀ w v, Q w v → f w = f v) → (∀ w, T (f w)) →
    T (get >>= f)
  bind : ∀ {α β : Type} {x : Run α} {f : α → Run β}, T x →
    (∀ a w w', x w = .ok a w' → T (f a)) → T (x >>= f)
  steps : ∀ {w v : World}, Q w v → w.steps = v.steps
  vars : ∀ {w v : World}, Q w v → w.vars = v.vars
  evaluation : ∀ {e : Error}, e.isEvaluation = true → P e

def Block.steps : Block → List Step
  | single step => [step]
  | group steps => steps

/-- The parts of a block have a property: its step, if it has one, or the members of a group, and
what writes their results. -/
structure Block.Parts (T : ∀ {α : Type}, Run α → Prop) (run : Step → Run Result) (c : Context)
    (u : Block) : Prop where
  settles : ∀ s ∈ u.steps, ∀ result, T (settle c s result)
  runs : ∀ s, u = .single s → T (run s)
  copies : ∀ members, u = .group (members.map Prod.fst) → T (onCopy (runMembers run members))

/-- A step's time is the same in worlds that `Q` relates. -/
structure Timed (Q : World → World → Prop) (c : Context) (step : Step) : Prop where
  deadline : ∀ {w v : World}, Q w v →
    stepDeadline c step w.session.clock = stepDeadline c step v.session.clock
  past : ∀ (clock : Float) {w v : World}, Q w v →
    isPast (stepDeadline c step clock) w.session.clock =
      isPast (stepDeadline c step clock) v.session.clock

theorem fst_of_decideAll {c : Context} {steps : List Step} {dec : List (Step × Bool)}
    (h : decideAll c steps w = .ok dec w') : dec.map Prod.fst = steps := by
  induction steps generalizing dec w with
  | nil =>
    cases h
    rfl
  | cons s rest ih =>
    obtain ⟨b, _, -, h⟩ := bind_eq_ok h
    obtain ⟨more, _, hl, ⟨⟩⟩ := bind_eq_ok h
    exact congrArg (s :: ·) (ih hl)

namespace Closed

variable {T : ∀ {α : Type}, Run α → Prop} {Q : World → World → Prop} {P : Error → Prop}
  {runner : Runner} {par : Action} {reg : Entries Action} {c : Context}
  {run : Step → Run Result} (h : Closed T Q P)
include h

theorem seq {α β : Type} {x : Run α} {f : α → Run β} (first : T x) (next : ∀ a, T (f a)) : T (x >>= f) :=
  h.bind first fun a _ _ _ => next a

theorem attempt {ε α : Type} {wrap : ε → Error} {res : Except ε α}
    (hf : ∀ e, res = .error e → P (wrap e)) : T (attempt wrap res) := by
  cases res with
  | ok v => exact h.pure v
  | error e => exact h.throw (hf e rfl)

theorem view {w v : World} (hs : Q w v) (c : Context) : c.view w = c.view v := by
  unfold Context.view
  rw [h.steps hs, h.vars hs]

theorem render (c : Context) (v : Json) : T (render c v) :=
  h.reads (fun _ _ hs => by rw [h.view hs]) fun _ => h.attempt fun _ _ => h.evaluation rfl

theorem shouldRun (c : Context) (step : Step) : T (shouldRun c step) := by
  unfold Action.shouldRun
  split
  · exact h.pure _
  · refine h.reads (fun _ _ hs => by rw [h.view hs]) fun w => ?_
    split
    · exact h.pure _
    · refine h.throw (h.evaluation ?_)
      split <;> rfl

theorem decideAll (c : Context) : ∀ steps : List Step, T (decideAll c steps)
  | [] => h.pure _
  | s :: rest => h.seq (h.shouldRun c s) fun _ => h.seq (decideAll c rest) fun _ => h.pure _

theorem stepAttempts {attempted : Run Result} {due : Option Float} (hpa : ∀ {w v : World}, Q w v →
      isPast due w.session.clock = isPast due v.session.clock)
    (hr : T (caught attempted)) (hp : ∀ n, T (pauseAfter n)) (failed : Bool)
    (left num : Nat) : T (stepAttempts attempted due failed left num) := by
  induction left generalizing failed num with
  | zero =>
    refine h.reads (fun _ _ hs => by rw [hpa hs]) fun w => iteInduction (fun _ => h.pure _) fun _ => ?_
    refine h.seq hr fun out => iteInduction (fun _ => h.pure _) fun _ => ?_
    refine h.reads (fun _ _ hs => by rw [hpa hs]) fun w => ?_
    split <;> exact h.pure _
  | succ more ih =>
    refine h.reads (fun _ _ hs => by rw [hpa hs]) fun w => iteInduction (fun _ => h.pure _) fun _ => ?_
    refine h.seq hr fun out => iteInduction (fun _ => h.pure _) fun _ => ?_
    exact h.seq (hp _) fun _ => ih _ _

theorem runStep {step : Spec.Step} (ht : Timed Q c step) (hun : ∀ e, actionOf par reg step = .error e → P e)
    (hu : ∀ e, step.retries.toWhole = .error e → P (.number e))
    (hru : ∀ act inp now, actionOf par reg step = .ok act →
      T (caught (runner act (stepContext c inp (stepDeadline c step now)))))
    (hp : ∀ n, T (pauseAfter n)) : T (runStep runner par reg c step) := by
  refine h.bind (h.attempt hun) fun act _ _ hg => ?_
  have hf := (eq_ok_of_attempt hg).1
  have hr (inp : Json) : T (do
      let due := stepDeadline c step (← get).session.clock
      withRetries step.retries "step failed" fun more =>
        Action.stepAttempts (runner act (stepContext c inp due)) due false more 0) := by
    refine h.reads (fun _ _ hs => by rw [ht.deadline hs]) fun w => ?_
    refine h.seq (h.attempt hu) fun retries => ?_
    split
    · exact h.pure _
    · exact h.stepAttempts (ht.past _) (hru act inp _ hf) hp _ _ _
  exact iteInduction (fun _ => h.seq (h.pure _) hr) fun _ => h.seq (h.render c step.input) hr

theorem assign {s : Step} (hw : ∀ name v, T (modify fun w : World => { w with vars := w.vars.put name v }))
    (hu : ∀ ms, s.assign = .obj ms → "" ∈ Entries.names ms → P (.assignName s.id))
    (hwr : s.assign.truthy → (∀ ms, s.assign ≠ .obj ms) → P (.assignKind s.id)) :
    T (assign c s) := by
  have all {ms : Json.Members} (hu : "" ∈ Entries.names ms → P (.assignName s.id)) :
      T (assignAll c s.id ms) := by
    induction ms with
    | nil => exact h.pure _
    | cons e rest ih =>
      obtain ⟨name, tpl⟩ := e
      have ho := ih fun mem => hu (mem_cons_of_mem _ mem)
      unfold assignAll
      split
      next he =>
        refine h.seq (h.throw (hu ?_)) fun _ => ?_
        · rw [String.isEmpty_iff.1 he]
          exact mem_cons_self
        · exact h.seq (h.render c tpl) fun v => h.seq (hw _ _) fun _ => ho
      next => exact h.seq (h.render c tpl) fun v => h.seq (hw _ _) fun _ => ho
  unfold Action.assign
  split
  · exact h.pure _
  next hg =>
    split
    next ms hs => exact all (hu ms hs)
    next hot => exact h.throw (hwr (by simpa using hg) hot)

theorem mergeResults (rs : Entries Result) (last : Option Result) {steps : List Step}
    (hs : ∀ s ∈ steps, ∀ res, T (settle c s res)) : T (mergeResults c rs last steps) := by
  induction steps generalizing last with
  | nil => exact h.pure _
  | cons s rest ih =>
    obtain ⟨first, ho⟩ := forall_mem_cons.1 hs
    refine h.seq (first _) fun _ => ?_
    split
    · exact ih _ ho
    · exact h.pure _

theorem runMembers {ms : List (Step × Bool)}
    (hr : ∀ m ∈ ms, T (caught (run m.1))) : T (runMembers run ms) := by
  induction ms with
  | nil => exact h.pure _
  | cons m rest ih =>
    obtain ⟨first, ho⟩ := forall_mem_cons.1 hr
    have more (own : Entries Result) : T (do
        let more ← Action.runMembers run rest
        return own ++ more) :=
      h.seq (ih ho) fun _ => h.pure _
    refine iteInduction (fun _ => ?_) fun _ => h.seq (h.pure _) more
    exact h.seq first fun _ => h.seq (h.pure _) more

theorem runBlock {u : Block} (hp : u.Parts T run c) (last : Option Result) : T (runBlock run c last u) := by
  cases u with
  | single s =>
    have hs := hp.settles s mem_cons_self
    refine h.seq (h.shouldRun c s) fun b => ?_
    split
    · exact h.seq (hp.runs s rfl) fun _ => h.seq (hs _) fun _ => h.pure _
    · exact h.seq (hs _) fun _ => h.pure _
  | group steps =>
    refine h.bind (h.decideAll c steps) fun dec _ _ hg => ?_
    refine h.seq (hp.copies dec ?_) fun rs => h.mergeResults _ last hp.settles
    rw [fst_of_decideAll hg]

theorem runBlocks {us : List Block} (hp : ∀ u ∈ us, u.Parts T run c) (last : Option Result) :
    T (runBlocks run c last us) := by
  induction us generalizing last with
  | nil => exact h.pure _
  | cons u rest ih =>
    obtain ⟨first, ho⟩ := forall_mem_cons.1 hp
    refine h.seq (h.runBlock first last) fun progress => ?_
    cases progress with
    | stop res => exact h.pure _
    | goOn last => exact ih ho last

theorem flowResult (flow : Flow) (last : Option Result) : T (flowResult flow last) := by
  unfold Action.flowResult
  split
  · exact h.pure _
  · exact h.pure _
  · refine h.reads (fun _ _ hs => by rw [h.steps hs]) fun w => ?_
    split <;> exact h.pure _

theorem runFlowBody {flow : Flow} (unknown : ∀ e, registryOf c = .error e → P e)
    (starts : ∀ members : Json.Members,
      T (modify fun w : World => { w with vars := w.vars.update members }))
    (parts : ∀ registry, registryOf c = .ok registry → ∀ u ∈ blocks flow.steps,
      u.Parts T (Action.runStep runner par registry { c with shared := true }) { c with shared := true }) :
    T (runFlowBody runner par flow c) := by
  refine h.bind (h.attempt unknown) fun registry _ _ given => ?_
  have blocks := h.runBlocks (parts registry (eq_ok_of_attempt given).1) none
  refine h.seq ?_ fun _ => h.seq blocks fun progress => ?_
  · unfold startVars
    split
    · exact h.pure _
    · refine h.seq (h.render _ _) fun v => ?_
      split
      · exact starts _
      · exact h.pure _
  · cases progress with
    | stop result => exact h.pure _
    | goOn last => exact h.flowResult flow last

end Closed

section Flow

variable {runner : Runner} {par : Action} {reg : Entries Action} {c : Context}
  {run : Step → Run Result} {steps : List Step} {s : Step}

theorem closed_keeps : Closed (Keeps R) Eq fun _ => True where
  pure := keeps_pure
  throw _ := keeps_throw _
  reads _ next := keeps_get.bind next
  bind first next w := ending_bind (first w) fun a w' ran => next a w w' ran w'
  steps := congrArg World.steps
  vars := congrArg World.vars
  evaluation _ := trivial

theorem timed_eq (c : Context) (step : Step) : Timed Eq c step where
  deadline hs := by rw [hs]
  past _ _ _ hs := by rw [hs]

omit [IsPreorder World R] in
theorem keeps_caught {x : Run Result} (h : Keeps R x) : Keeps R (caught x) := h

theorem keeps_runStep {step : Step} (hr : ∀ act inp due, actionOf par reg step = .ok act →
      Keeps R (runner act (stepContext c inp due)))
    (hp : ∀ n, Keeps R (pauseAfter n)) : Keeps R (runStep runner par reg c step) :=
  closed_keeps.runStep (timed_eq c step) (fun _ _ => trivial) (fun _ _ => trivial)
    (fun act inp _ hf => keeps_caught (hr act inp _ hf)) hp

/-- Variables can be written, and results under some ids. -/
structure Writable (R : World → World → Prop) (ids : List String) : Prop where
  vars : ∀ (w : World) (vars : Json.Members), R w { w with vars }
  steps : ∀ (w : World) (id : String) (result : Json), id ∈ ids →
    R w { w with steps := w.steps.put id result }

theorem keeps_assign (vars : ∀ (w : World) (vars : Json.Members), R w { w with vars })
    (c : Context) (step : Step) : Keeps R (assign c step) :=
  closed_keeps.assign (fun _ _ => keeps_modify fun w => vars w _) (fun _ _ _ => trivial) fun _ _ => trivial

theorem Writable.keeps_settle (hw : Writable R (steps.map Step.id)) (c : Context) :
    ∀ s ∈ steps, ∀ res, Keeps R (settle c s res) :=
  fun _ mem _ => (keeps_modify fun w => hw.steps w _ _ (mem_map_of_mem mem)).bind
    fun _ => keeps_assign hw.vars c _

theorem flatMap_steps_blocks (steps : List Step) : (blocks steps).flatMap Block.steps = steps := by
  induction steps with
  | nil => rfl
  | cons s rest ih =>
    unfold blocks
    split
    · split
      · rename_i more others cut
        rw [cut] at ih
        simpa [Block.steps] using congrArg (s :: ·) ih
      · simpa [Block.steps] using congrArg (s :: ·) ih
    · simpa [Block.steps] using congrArg (s :: ·) ih

theorem parallel_of_single_mem_blocks :
    ∀ {steps : List Step}, Block.single s ∈ blocks steps → s.parallel = false
  | [], h => absurd h not_mem_nil
  | t :: rest, h => by
    unfold blocks at h
    split at h
    · split at h
      · rename_i more others cut
        rcases mem_cons.1 h with h | h
        · cases h
        · exact parallel_of_single_mem_blocks (cut ▸ mem_cons_of_mem _ h)
      · rcases mem_cons.1 h with h | h
        · cases h
        · exact parallel_of_single_mem_blocks h
    · rename_i ha
      rcases mem_cons.1 h with h | h
      · cases h
        exact Bool.eq_false_iff.2 ha
      · exact parallel_of_single_mem_blocks h

theorem mem_of_mem_blocks {u : Block} (hb : u ∈ blocks steps)
    (mem : s ∈ u.steps) : s ∈ steps := by
  rw [← flatMap_steps_blocks steps]
  exact mem_flatMap.2 ⟨u, hb, mem⟩

/-- Blocks keep what the steps that run by themselves keep, and what the members of a group keep
together with the end of their copy. -/
theorem Writable.parts {us : List Block} (hw : Writable R ((us.flatMap Block.steps).map Step.id))
    (hr : ∀ s, Block.single s ∈ us → Keeps R (run s))
    (hc : ∀ ms, Keeps R (onCopy (runMembers run ms))) (c : Context) :
    ∀ u ∈ us, u.Parts (Keeps R) run c :=
  fun u mem => ⟨fun s hs => hw.keeps_settle c s (mem_flatMap.2 ⟨u, mem, hs⟩),
    fun s hsa => hr s (hsa ▸ mem), fun ms _ => hc ms⟩

theorem keeps_runFlowBody {flow : Flow} (writable : Writable R (flow.steps.map Step.id))
    (runs : ∀ registry, registryOf c = .ok registry → ∀ s ∈ flow.steps, s.parallel = false →
      Keeps R (runStep runner par registry { c with shared := true } s))
    (copies : ∀ registry, registryOf c = .ok registry → ∀ members, Keeps R (onCopy
        (runMembers (runStep runner par registry { c with shared := true }) members))) :
    Keeps R (runFlowBody runner par flow c) := by
  refine closed_keeps.runFlowBody (fun _ _ => trivial)
    (fun _ => keeps_modify fun w => writable.vars w _) fun registry found => ?_
  rw [← flatMap_steps_blocks flow.steps] at writable
  refine writable.parts (fun s hs => ?_) (copies registry found) _
  exact runs registry found s (mem_of_mem_blocks hs mem_cons_self) (parallel_of_single_mem_blocks hs)

def Blind (R : World → World → Prop) : Prop :=
  ∀ (w : World) (steps vars : Json.Members), R w { w with steps, vars }

omit [IsPreorder World R] in
theorem Blind.writable (hb : Blind R) (ids : List String) : Writable R ids :=
  ⟨fun w vars => hb w w.steps vars, fun w _ _ _ => hb w _ w.vars⟩

theorem keeps_onCopy (hb : Blind R) {α : Type} {run : Run α} (h : Keeps R run) : Keeps R (onCopy run) := by
  intro w
  have he := h w
  unfold onCopy
  cases hrun : run w with
  | ok v w' =>
    rw [hrun] at he
    exact trans_of R he (hb w' _ _)
  | error e w' =>
    rw [hrun] at he
    exact trans_of R he (hb w' _ _)

theorem Blind.keeps_runFlowBody (hb : Blind R) {flow : Spec.Flow}
    (hr : ∀ registry step act inp due, actionOf par registry step = .ok act →
      Keeps R (runner act (stepContext c inp due)))
    (hp : ∀ n, Keeps R (pauseAfter n)) : Keeps R (runFlowBody runner par flow c) := by
  have steps (registry : Entries Spec.Action) (s : Spec.Step) :
      Keeps R (runStep runner par registry { c with shared := true } s) :=
    keeps_runStep (fun act inp due => hr registry s act inp due) hp
  refine Action.keeps_runFlowBody (hb.writable _) (fun registry _ s _ _ => steps registry s) ?_
  exact fun registry _ ms => keeps_onCopy hb
    (closed_keeps.runMembers fun m _ => keeps_caught (steps registry m.1))

end Flow

/-! ## Actions -/

theorem ending_runAt {ls : Nat} {act : Action} {c : Context}
    (http : ∀ call, act.http = some call → Keeps R (runHttp call c act.method))
    (llm : ∀ call, act.llm = some call → Keeps R (runLlm call c))
    (db : ∀ call, act.db = some call → Keeps R (runDb call c))
    (flow : ∀ left flow, ls = left + 1 → act.flow = some flow →
      Keeps R (runFlowBody (runAt left) act flow c)) (w : World) :
    R { w with calls := w.calls ++ [act] } (ending (runAt ls act c w)) := by
  unfold runAt
  refine (?work : Keeps R _) { w with calls := w.calls ++ [act] }
  split
  · cases hp : act.http with
    | none => exact keeps_throw _
    | some call => exact http call hp
  · cases hp : act.llm with
    | none => exact keeps_throw _
    | some call => exact llm call hp
  · cases hp : act.db with
    | none => exact keeps_throw _
    | some call => exact db call hp
  · cases act.value with
    | none => exact keeps_throw _
    | some constant => exact keeps_runConstant constant c
  · cases hp : act.flow with
    | none => exact keeps_throw _
    | some body =>
      cases ls with
      | zero => exact keeps_throw _
      | succ left => exact flow left body rfl hp
  · exact keeps_throw _

end Appwright.Action
