import Appwright.Proofs.Action.Gate
import Mathlib.Data.List.Chain

/-!
# The course of a flow

A flow processes its units one after another. A unit is a step that runs by itself, or a longest run
of parallel steps (`cuts_blocks`). In a unit the steps that are open run, all of them, whatever the
others come to. A result that is no success ends the flow after its unit, unless its step says that
the flow goes on.

A run is told by the units that it came to, each with the worlds in which it began and ended
(`Visit`). Both what the steps of a unit gave and the world in which it ended follow from the world
in which it began (`sound_visit`), and the units of a run follow each other (`exists_tour`).
-/

namespace Appwright.Action

open List Spec Bool Entries Condition

variable {run : Step → Run Result} {c : Context} {w w' : World}

/-! ## Units -/

def Block.isGroup : Block → Bool
  | single _ => false
  | group _ => true

/-- Units that cut steps: one step that is not parallel, or as many neighbours as possible that
are. -/
structure Cuts (steps : List Step) (us : List Block) : Prop where
  whole : us.flatMap Block.steps = steps
  single : ∀ s, .single s ∈ us → s.parallel = false
  group : ∀ members, .group members ∈ us → members ≠ [] ∧ ∀ s ∈ members, s.parallel = true
  longest : us.IsChain fun u v => ¬ (u.isGroup = true ∧ v.isGroup = true)

variable {ss : List Step} {res : Result} {us : List Block} {s : Step} {progress : Progress}
  {log : Log} {last : Option Result} {rs : Entries Result}

theorem parallel_of_group_mem_blocks {ms : List Step}
    (mem : .group ms ∈ blocks ss) : ms ≠ [] ∧ ∀ s ∈ ms, s.parallel := by
  fun_induction blocks ss generalizing ms with
  | case1 => exact absurd mem not_mem_nil
  | case2 s rest hp more others cut ih =>
    rw [cut] at ih
    rcases mem_cons.1 mem with hs | hl
    · cases hs
      exact ⟨cons_ne_nil _ _, forall_mem_cons.2 ⟨hp, (ih mem_cons_self).2⟩⟩
    · exact ih (mem_cons_of_mem _ hl)
  | case3 s rest hp _ ih =>
    rcases mem_cons.1 mem with hs | hl
    · cases hs
      exact ⟨cons_ne_nil _ _, forall_mem_singleton.2 hp⟩
    · exact ih hl
  | case4 s rest _ ih =>
    rcases mem_cons.1 mem with hs | hl
    · cases hs
    · exact ih hl

theorem isChain_blocks (steps : List Step) :
    (blocks steps).IsChain fun u v => ¬ (u.isGroup ∧ v.isGroup) := by
  fun_induction blocks steps with
  | case1 => exact .nil
  | case2 s rest _ more others cut ih =>
    rw [cut, isChain_cons] at ih
    exact isChain_cons.2 ih
  | case3 s rest _ ha ih =>
    refine isChain_cons.2 ⟨fun v first hg => ?_, ih⟩
    cases v with
    | single t => cases hg.2
    | group more =>
      obtain ⟨others, cut⟩ := head?_eq_some_iff.1 first
      exact ha more others cut
  | case4 s rest _ ih =>
    exact isChain_cons.2 ⟨fun v _ hg => absurd hg.1 false_ne_true, ih⟩

theorem cuts_blocks (steps : List Step) : Cuts steps (blocks steps) where
  whole := flatMap_steps_blocks steps
  single _ mem := parallel_of_single_mem_blocks mem
  group _ mem := parallel_of_group_mem_blocks mem
  longest := isChain_blocks steps

/-! ## Visits -/

def endsFlow (p : Step × Result) : Bool :=
  !isOk p.2 && p.1.onError != some "continue"

theorem goesOn_eq (hm : KnownMode s) (result : Result) : goesOn s result = !endsFlow (s, result) := by
  -- The flow compares in lower case, and the words for it are written so.
  have hs : (Text.lower (s.onError.getD "") == "continue") = (s.onError == some "continue") := by
    cases hg : s.onError with
    | none => decide
    | some word =>
      have ha := hm word hg
      fin_cases ha <;> decide
  unfold goesOn endsFlow
  rw [hs]
  simp [bne]

def decisions (c : Context) (w : World) (steps : List Step) : List (Step × Bool) :=
  steps.map fun s => (s, isOpen s.condition (c.view w))

/-- What steps give that run one after another where they are open; the others are skipped. -/
def stepResults (run : Step → Run Result) : List (Step × Bool) → World → Log
  | [], _ => []
  | (s, true) :: rest, w => (s, alone run s w) :: stepResults run rest (ending (run s w))
  | (s, false) :: rest, w => (s, skipped) :: stepResults run rest w

/-- Records the results of steps in order, up to the first that ends the flow. -/
def settleAll (c : Context) : Log → Run Unit
  | [] => pure ()
  | p :: rest => do
    settle c p.1 p.2
    if endsFlow p then pure () else settleAll c rest

def outcome : Option Result → Log → Progress
  | last, [] => .goOn last
  | _, p :: rest => if endsFlow p then .stop p.2 else outcome (some p.2) rest

/-- A unit that was processed, with the worlds in which it began and ended. -/
structure Visit where
  unit : Block
  start : World
  finish : World

def Visit.results (run : Step → Run Result) (c : Context) (v : Visit) : Log :=
  stepResults run (decisions c v.start v.unit.steps) v.start

/-- The world after the open steps of the unit ran, those of a group on a copy of what is shared. -/
def Visit.worked (run : Step → Run Result) (c : Context) (v : Visit) : World :=
  let w := runEach run (openSteps c v.start v.unit.steps) v.start
  if v.unit.isGroup then { w with steps := v.start.steps, vars := v.start.vars } else w

/-- The unit ran the steps whose conditions let them run, and no others, and then recorded the
results. -/
structure Visit.Sound (run : Step → Run Result) (c : Context) (v : Visit) : Prop where
  decided : ∀ s ∈ v.unit.steps,
    shouldRun c s v.start = .ok (isOpen s.condition (c.view v.start)) v.start
  settled : settleAll c (v.results run c) (v.worked run c) = .ok () v.finish

theorem settleAll_of_mergeResults (hmo : ∀ s ∈ ss, KnownMode s)
    (hm : mergeResults c rs last ss w = .ok progress w') :
    settleAll c (ss.map fun s => (s, (rs.get? s.id).getD skipped)) w = .ok () w' ∧
      progress = outcome last (ss.map fun s => (s, (rs.get? s.id).getD skipped)) := by
  induction ss generalizing last w with
  | nil =>
    cases hm
    exact ⟨rfl, rfl⟩
  | cons s rest ih =>
    obtain ⟨mode, hmo⟩ := forall_mem_cons.1 hmo
    obtain ⟨_, w₁, hs, hm⟩ := bind_eq_ok hm
    rw [goesOn_eq mode] at hm
    rw [map_cons, settleAll, outcome, bind_of_ok hs]
    cases he : endsFlow (s, (rs.get? s.id).getD skipped) with
    | true =>
      rw [he] at hm
      cases hm
      exact ⟨rfl, rfl⟩
    | false =>
      rw [he] at hm
      exact ih hmo hm

theorem stepResults_of_runMembers {ms : List (Step × Bool)}
    (hd : (ms.map fun m => m.1.id).Nodup) (ran : runMembers run ms w = .ok rs w') :
    ms.map (fun m => (m.1, (rs.get? m.1.id).getD skipped)) = stepResults run ms w := by
  induction ms generalizing rs w with
  | nil => rfl
  | cons m rest ih =>
    obtain ⟨s, b⟩ := m
    rw [map_cons, nodup_cons] at hd
    obtain ⟨hf, hd⟩ := hd
    cases b with
    | true =>
      obtain ⟨others, w₁, hl, -⟩ := exists_runMembers run rest (ending (run s w))
      rw [runMembers_cons_true, map_eq_ok hl] at ran
      cases ran
      rw [map_cons, stepResults, ← ih hd hl]
      congr 1
      · simp [get?]
      · refine map_congr_left fun m mem => ?_
        have ho : s.id ≠ m.1.id := fun hs => hf (mem_map.2 ⟨m, mem, hs.symm⟩)
        simp [get?, ho]
    | false =>
      rw [runMembers_cons_false] at ran
      have ha : s.id ∉ rs.map Prod.fst := by
        obtain ⟨_, _, ran', ids⟩ := exists_runMembers run rest w
        cases ran.symm.trans ran'
        rw [ids]
        intro ham
        obtain ⟨m, mem, hs⟩ := mem_map.1 ham
        exact hf (mem_map.2 ⟨m, mem_of_mem_filter mem, hs⟩)
      rw [map_cons, stepResults, ih hd ran, get?_eq_none_of_not_mem ha]
      rfl

theorem settleAll_single (hm : KnownMode s) (hs : (do
      settle c s res
      return if goesOn s res then .goOn (some res) else .stop res : Run Progress) w = .ok progress w') :
    settleAll c [(s, res)] w = .ok () w' ∧ progress = outcome last [(s, res)] := by
  obtain ⟨_, w₁, first, hs⟩ := bind_eq_ok hs
  rw [goesOn_eq hm] at hs
  cases hs
  rw [settleAll, outcome, bind_of_ok first]
  cases endsFlow (s, res) with
  | true | false => exact ⟨rfl, rfl⟩

theorem visit_single (hd : ∃ b, eval s.condition (c.view w) = .ok b)
    (hm : KnownMode s) (hp : runBlock run c last (.single s) w = .ok progress w') :
    settleAll c (Visit.results run c ⟨.single s, w, w'⟩) (Visit.worked run c ⟨.single s, w, w'⟩) =
        .ok () w' ∧
      progress = outcome last (Visit.results run c ⟨.single s, w, w'⟩) := by
  rw [runBlock, bind_of_ok (shouldRun_eq_ok hd)] at hp
  cases ho : isOpen s.condition (c.view w) with
  | true =>
    rw [ho, if_pos rfl] at hp
    obtain ⟨result, w₁, ran, hp⟩ := bind_eq_ok hp
    have hg : Visit.results run c ⟨.single s, w, w'⟩ = [(s, result)] := by
      simp [Visit.results, Block.steps, decisions, stepResults, ho, alone, ran]
    have hw : Visit.worked run c ⟨.single s, w, w'⟩ = w₁ := by
      simp [Visit.worked, Block.isGroup, Block.steps, openSteps, runEach, ho, ran]
    rw [hg, hw]
    exact settleAll_single hm hp
  | false =>
    rw [ho, if_neg Bool.false_ne_true] at hp
    have hg : Visit.results run c ⟨.single s, w, w'⟩ = [(s, skipped)] := by
      simp [Visit.results, Block.steps, decisions, stepResults, ho]
    have hw : Visit.worked run c ⟨.single s, w, w'⟩ = w := by
      simp [Visit.worked, Block.isGroup, Block.steps, openSteps, runEach, ho]
    rw [hg, hw]
    exact settleAll_single hm hp

theorem visit_group (hd : (ss.map Step.id).Nodup) (hde : Decided c w ss) (hmo : ∀ s ∈ ss, KnownMode s)
    (hp : runBlock run c last (.group ss) w = .ok progress w') :
    settleAll c (Visit.results run c ⟨.group ss, w, w'⟩)
        (Visit.worked run c ⟨.group ss, w, w'⟩) = .ok () w' ∧
      progress = outcome last (Visit.results run c ⟨.group ss, w, w'⟩) := by
  obtain ⟨rs, w₁, ran, ids⟩ := exists_runMembers run (decisions c w ss) w
  have hdec : decideAll c ss w = .ok (decisions c w ss) w := decideAll_eq_ok hde
  rw [runBlock, bind_of_ok hdec, bind_of_ok (onCopy_of_ok ran)] at hp
  have hm : ((decisions c w ss).map fun m => m.1.id).Nodup := by
    rw [decisions, map_map]
    exact hd
  have hn : (rs.map Prod.fst).Nodup := by
    rw [ids]
    exact hm.sublist (filter_sublist.map _)
  have hg : ss.map (fun s => (s, (rs.get? s.id).getD skipped)) =
      Visit.results run c ⟨.group ss, w, w'⟩ := by
    refine Eq.trans ?_ (stepResults_of_runMembers hm ran)
    rw [decisions, map_map]
    rfl
  have hw : Visit.worked run c ⟨.group ss, w, w'⟩ = { w₁ with steps := w.steps, vars := w.vars } := by
    have he := ending_runMembers run (decisions c w ss) w
    rw [ran, ending_ok, decisions, fst_filter_isOpen] at he
    rw [he]
    rfl
  rw [ofPairs_eq hn] at hp
  rw [hw, ← hg]
  exact settleAll_of_mergeResults hmo hp

/-- A unit that was processed ran its open steps, and the flow has come as far as their results
say. -/
theorem sound_visit {u : Block} (hdi : (u.steps.map Step.id).Nodup)
    (hfo : ∀ s ∈ u.steps, checkForm s.condition = .ok ())
    (hm : ∀ s ∈ u.steps, KnownMode s) (hp : runBlock run c last u w = .ok progress w') :
    Visit.Sound run c ⟨u, w, w'⟩ ∧ progress = outcome last (Visit.results run c ⟨u, w, w'⟩) := by
  have hd : Decided c w u.steps := by
    by_contra hw
    obtain ⟨e, hf⟩ : ∃ e, runBlock run c last u w = .error e w := runBlock_eq_error last hfo hw
    cases hp.symm.trans hf
  have hv : settleAll c (Visit.results run c ⟨u, w, w'⟩) (Visit.worked run c ⟨u, w, w'⟩) =
      .ok () w' ∧ progress = outcome last (Visit.results run c ⟨u, w, w'⟩) := by
    cases u with
    | single s =>
      exact visit_single (hd s mem_cons_self) (hm s mem_cons_self) hp
    | group steps => exact visit_group hdi hd hm hp
  exact ⟨⟨fun s mem => shouldRun_eq_ok (hd s mem), hv.1⟩, hv.2⟩

/-! ## Tours -/

def Linked : World → List Visit → World → Prop
  | w, [], w' => w' = w
  | w, v :: rest, w' => v.start = w ∧ Linked v.finish rest w'

/-- Some units were processed, the first ones in order, up to the first with a step that ends the
flow. -/
structure Tour (run : Step → Run Result) (c : Context) (us : List Block) (w : World)
    (visits : List Visit) (w' : World) : Prop where
  order : visits.map Visit.unit <+: us
  linked : Linked w visits w'
  sound : ∀ v ∈ visits, v.Sound run c
  /-- Only in the last unit a step may end the flow. -/
  goesOn : ∀ v ∈ visits.dropLast, ∀ p ∈ v.results run c, endsFlow p = false
  /-- Units are left out only if one does. -/
  complete : visits.map Visit.unit = us ∨
    ∃ v ∈ visits, ∃ p ∈ v.results run c, endsFlow p = true

theorem outcome_of_find?_eq_some {p : Step × Result} (hf : log.find? endsFlow = some p)
    (last : Option Result) : outcome last log = .stop p.2 := by
  induction log generalizing last with
  | nil => cases hf
  | cons q rest ih =>
    rw [outcome]
    cases he : endsFlow q with
    | true =>
      rw [find?_cons_of_pos he] at hf
      cases hf
      rfl
    | false =>
      rw [find?_cons_of_neg (by rw [he]; exact false_ne_true)] at hf
      exact ih hf _

theorem outcome_of_find?_eq_none (none : log.find? endsFlow = none) (last : Option Result) :
    outcome last log = .goOn ((log.getLast?.map Prod.snd).or last) := by
  induction log generalizing last with
  | nil => rfl
  | cons q rest ih =>
    rw [find?_eq_none, forall_mem_cons] at none
    rw [outcome, if_neg none.1, ih (find?_eq_none.2 none.2)]
    cases rest with
    | nil => rfl
    | cons p more => simp [getLast?_cons]

theorem find?_eq_none_iff : log.find? endsFlow = none ↔ ∀ p ∈ log, endsFlow p = false := by
  simp [find?_eq_none]

theorem forall_of_outcome_eq_goOn {last last' : Option Result}
    (hg : outcome last log = .goOn last') : ∀ p ∈ log, endsFlow p = false := by
  rw [← find?_eq_none_iff]
  cases hf : log.find? endsFlow with
  | none => rfl
  | some p => cases hg.symm.trans (outcome_of_find?_eq_some hf last)

theorem exists_of_outcome_eq_stop (hs : outcome last log = .stop res) : ∃ p ∈ log, endsFlow p := by
  cases hf : log.find? endsFlow with
  | none => cases hs.symm.trans (outcome_of_find?_eq_none hf last)
  | some p => exact ⟨p, mem_of_find?_eq_some hf, find?_some hf⟩

theorem outcome_append {last last' : Option Result} (hg : outcome last log = .goOn last')
    (more : Log) : outcome last (log ++ more) = outcome last' more := by
  induction log generalizing last with
  | nil =>
    cases hg
    rfl
  | cons p rest ih =>
    have first := forall_of_outcome_eq_goOn hg p mem_cons_self
    rw [outcome, if_neg (by rw [first]; exact false_ne_true)] at hg
    rw [cons_append, outcome, if_neg (by rw [first]; exact false_ne_true)]
    exact ih hg

variable {visits : List Visit} {v : Visit} {flow : Flow}

theorem Tour.cons (ht : Tour run c us v.finish visits w')
    (hs : v.Sound run c) (hg : ∀ p ∈ v.results run c, endsFlow p = false) :
    Tour run c (v.unit :: us) v.start (v :: visits) w' where
  order := cons_prefix_cons.2 ⟨rfl, ht.order⟩
  linked := ⟨rfl, ht.linked⟩
  sound := forall_mem_cons.2 ⟨hs, ht.sound⟩
  goesOn := by
    cases visits with
    | nil => exact nofun
    | cons next rest => exact forall_mem_cons.2 ⟨hg, ht.goesOn⟩
  complete := by
    rcases ht.complete with hw | ⟨last, mem, he⟩
    · exact .inl (congrArg (v.unit :: ·) hw)
    · exact .inr ⟨last, mem_cons_of_mem _ mem, he⟩

theorem Tour.ending (hs : v.Sound run c)
    (he : ∃ p ∈ v.results run c, endsFlow p) (us : List Block) :
    Tour run c (v.unit :: us) v.start [v] v.finish where
  order := cons_prefix_cons.2 ⟨rfl, nil_prefix⟩
  linked := ⟨rfl, rfl⟩
  sound := forall_mem_singleton.2 hs
  goesOn _ mem := absurd mem not_mem_nil
  complete := .inr ⟨v, mem_cons_self, he⟩

/-- A run of units is a tour of them. The induction is on the units. -/
theorem exists_tour (hd : ((us.flatMap Block.steps).map Step.id).Nodup)
    (hf : ∀ s ∈ us.flatMap Block.steps, checkForm s.condition = .ok ())
    (hm : ∀ s ∈ us.flatMap Block.steps, KnownMode s)
    (ran : runBlocks run c last us w = .ok progress w') :
    ∃ visits, Tour run c us w visits w' ∧
      progress = outcome last (visits.flatMap (Visit.results run c)) := by
  induction us generalizing last w with
  | nil =>
    cases ran
    refine ⟨[], ⟨prefix_rfl, rfl, ?_, ?_, .inl rfl⟩, rfl⟩
    · exact nofun
    · exact nofun
  | cons u rest ih =>
    rw [flatMap_cons, forall_mem_append] at hf hm
    rw [flatMap_cons, map_append] at hd
    obtain ⟨reached, w₁, first, ran⟩ := bind_eq_ok ran
    obtain ⟨hs, hc⟩ := sound_visit (hd.sublist (sublist_append_left _ _)) hf.1 hm.1 first
    cases reached with
    | stop result =>
      -- the units that are left are not looked at
      cases ran
      refine ⟨[⟨u, w, w'⟩], .ending hs (exists_of_outcome_eq_stop hc.symm) rest, ?_⟩
      rw [flatMap_singleton]
      exact hc
    | goOn last' =>
      obtain ⟨visits, ht, he⟩ := ih (hd.sublist (sublist_append_right _ _)) hf.2 hm.2 ran
      refine ⟨⟨u, w, w₁⟩ :: visits, ht.cons hs (forall_of_outcome_eq_goOn hc.symm), ?_⟩
      rw [flatMap_cons, outcome_append hc.symm]
      exact he

/-! ## The result of a flow -/

/-- The result of a flow, given what its steps gave: the first result that ends the flow, or else
the last one, unless the flow names the step whose result it returns. -/
structure Concludes (flow : Flow) (log : Log) (result : Result) : Prop where
  stopped : ∀ p, log.find? endsFlow = some p → result = p.2
  finished : log.find? endsFlow = none → flow.returnStep.getD "" = "" →
    ∀ s, flow.steps.getLast? = some s → log.getLast? = some (s, result)

theorem fst_stepResults (run : Step → Run Result) (ms : List (Step × Bool))
    (w : World) : (stepResults run ms w).map Prod.fst = ms.map Prod.fst := by
  induction ms generalizing w with
  | nil => rfl
  | cons m rest ih =>
    obtain ⟨s, b⟩ := m
    cases b with
    | true | false => exact congrArg (s :: ·) (ih _)

theorem fst_results (v : Visit) : (v.results run c).map Prod.fst = v.unit.steps := by
  rw [Visit.results, fst_stepResults, decisions, map_map]
  exact map_id _

theorem Tour.fst_flatMap_results (ht : Tour run c us w visits w')
    (none : (visits.flatMap (Visit.results run c)).find? endsFlow = none) :
    (visits.flatMap (Visit.results run c)).map Prod.fst = us.flatMap Block.steps := by
  have hw : visits.map Visit.unit = us := by
    refine ht.complete.resolve_right ?_
    rintro ⟨v, mem, p, hg, he⟩
    rw [find?_eq_none_iff.1 none p (mem_flatMap.2 ⟨v, mem, hg⟩)] at he
    cases he
  rw [← hw, map_flatMap, flatMap_map]
  simp only [fst_results]

theorem flowResult_of_returnStep (hu : flow.returnStep.getD "" = "")
    (last : Option Result) : flowResult flow last = pure (last.getD (answer true 200 .null)) := by
  unfold flowResult
  cases hn : flow.returnStep with
  | none => rfl
  | some id =>
    rw [hn] at hu
    cases hu
    rfl

theorem Tour.concludes (ht : Tour run c (blocks flow.steps) w visits w') {w'' : World}
    (hf : Action.finish flow (outcome none (visits.flatMap (Visit.results run c))) w' = .ok res w'') :
    w'' = w' ∧ Concludes flow (visits.flatMap (Visit.results run c)) res := by
  cases hfo : (visits.flatMap (Visit.results run c)).find? endsFlow with
  | some p =>
    rw [outcome_of_find?_eq_some hfo] at hf
    cases hf
    refine ⟨rfl, ?_, ?_⟩
    · rintro q hs
      cases hfo.symm.trans hs
      rfl
    · intro none
      cases hfo.symm.trans none
  | none =>
    rw [outcome_of_find?_eq_none hfo] at hf
    refine ⟨Keeps.eq_of_ok (closed_keeps.flowResult flow _) hf, ?_, ?_⟩
    · intro p hs
      cases hfo.symm.trans hs
    · intro _ hu s last
      rw [← flatMap_steps_blocks flow.steps, ← ht.fst_flatMap_results hfo, getLast?_map] at last
      obtain ⟨p, hfi, rfl⟩ := Option.map_eq_some_iff.1 last
      rw [Action.finish, flowResult_of_returnStep hu, hfi] at hf
      cases hf
      exact hfi

def refusing : Action where
  name := "no"
  kind := "value"
  value := some { data := .null, status := .int 418, ok := .bool false }

/-- A failure after which the flow goes on, a group whose first member fails, and another step. -/
def halting : Flow where
  steps := [
    { id := "a", use := "no", onError := some "continue" },
    { id := "b", use := "no", parallel := true },
    { id := "c", use := "one", parallel := true },
    { id := "d", use := "one" }]

def haltingActions : Entries Action :=
  [("one", giving "one" 1), ("no", refusing)]

def haltingContext : Context :=
  (Context.start [] .null .null).withRegistry haltingActions

theorem formed_halting : Formed halting := by
  have hp : ∀ s ∈ halting.steps, s.condition = .null ∧ s.retries = .int 0 ∧ s.assign = .null ∧
      (s.onError = none ∨ s.onError = some "continue") := by
    simp [halting]
  refine ⟨by decide, ?_, ?_, ?_, ?_⟩
  · intro s mem
    rw [(hp s mem).1]
    rfl
  · intro s mem
    exact ⟨0, by rw [(hp s mem).2.1]; rfl⟩
  · intro s mem
    rw [(hp s mem).2.2.1]
    exact ⟨.inl rfl, nofun⟩
  · intro s mem mode hg
    rcases (hp s mem).2.2.2 with none | hgo
    · cases none.symm.trans hg
    · cases hgo.symm.trans hg
      decide

end Appwright.Action
