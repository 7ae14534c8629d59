import Appwright.Proofs.Action.Effects
import Appwright.Proofs.Entries
import Appwright.Proofs.Spec.Accepted

/-!
# What a flow returns

A flow may name a step whose result it returns. The results of steps are found by id, and the flows
that a step uses write theirs among them, so a step of another flow with the same id takes the place
of the flow's own (`outer_returns_inner`).

To speak of what a flow's own steps gave, its blocks are run once more with a log
(`fst_logBlocks`: apart from the log nothing is different). A result stays where it was recorded as
long as no later step that runs by itself overwrites it (`get?_steps_of_logBlocks`); members of a
group work on a copy and can do so in no case. `Overwrites` says which actions can, at any depth.
`run_returns_own_result` puts this together for all flows of accepted specifications.
-/

namespace Appwright

open List Spec Entries

namespace Action

/-! ## Flows that keep a log -/

/-- Runs the members of a group and notes what each gives, nothing for those that are left out. -/
def logMembers (run : Step → Run Result) :
    List (Step × Bool) → Run (List (Step × Option Result))
  | [] => return []
  | (s, b) :: rest => do
    let own ← if b then do
        let (result, _) ← caught (run s)
        pure (some result)
      else pure none
    let more ← logMembers run rest
    return (s, own) :: more

def given (members : List (Step × Option Result)) : List (String × Result) :=
  members.filterMap fun m => m.2.map fun result => (m.1.id, result)

/-- What the steps of a flow gave, in order. -/
abbrev Log := List (Step × Result)

def logBlock (run : Step → Run Result) (c : Context) (last : Option Result) :
    Block → Run (Progress × Log)
  | .single s => do
    if ← shouldRun c s then
      let result ← run s
      settle c s result
      return (if goesOn s result then .goOn (some result) else .stop result, [(s, result)])
    else
      settle c s skipped
      return (.goOn (some skipped), [(s, skipped)])
  | .group steps => do
    let decided ← decideAll c steps
    let members ← onCopy (logMembers run decided)
    let progress ← mergeResults c (ofPairs (given members)) last steps
    return (progress, members.map fun m => (m.1, m.2.getD skipped))

/-- Processes blocks until one ends the flow, and notes what their steps gave. -/
def logBlocks (run : Step → Run Result) (c : Context) (last : Option Result) :
    List Block → Run (Progress × Log)
  | [] => return (.goOn last, [])
  | u :: rest => do
    match ← logBlock run c last u with
    | (.stop result, log) => return (.stop result, log)
    | (.goOn last, log) => do
      let (progress, more) ← logBlocks run c last rest
      return (progress, log ++ more)

def finish (flow : Flow) : Progress → Run Result
  | .stop result => return result
  | .goOn last => flowResult flow last

def logFlow (runner : Runner) (parent : Action) (flow : Flow) (c : Context) :
    Run (Progress × Log) := do
  let registry ← attempt id (registryOf c)
  let c := { c with shared := true }
  startVars c flow.vars
  logBlocks (runStep runner parent registry c) c none (blocks flow.steps)

def logAction (action : Action) (c : Context) : Run (Progress × Log) := do
  note action
  match action.flow, (maxDepth + 1 - c.depth).toNat with
  | some flow, left + 1 => logFlow (runAt left) action flow c
  | _, _ => throw .tooDeep

variable {run : Step → Run Result} {c : Context} {w w' : World} {ms : List (Step × Option Result)}
  {res : Result} {act : Action} {flow : Flow} {s : Step} {id : String} {last last' : Option Result}
  {log : Log}

theorem given_logMembers (run : Step → Run Result) (members : List (Step × Bool)) :
    given <$> logMembers run members = runMembers run members := by
  induction members with
  | nil => rfl
  | cons m rest ih =>
    obtain ⟨s, b⟩ := m
    unfold logMembers runMembers
    rw [← ih]
    cases b with
    | true => simp [given, map_bind]
    | false => simp [given]

theorem map_onCopy {α β : Type} (f : α → β) (x : Run α) : f <$> onCopy x = onCopy (f <$> x) := by
  funext w
  change EStateM.map f (onCopy x) w = onCopy (EStateM.map f x) w
  unfold onCopy EStateM.map
  dsimp only
  cases x w <;> rfl

theorem fst_logBlock (run : Step → Run Result) (c : Context) (last : Option Result)
    (u : Block) : Prod.fst <$> logBlock run c last u = runBlock run c last u := by
  cases u with
  | single s =>
    unfold logBlock runBlock
    rw [map_bind]
    congr 1
    funext b
    cases b with
    | true => simp [map_bind]
    | false => simp
  | group ss =>
    unfold logBlock runBlock
    rw [map_bind]
    congr 1
    funext dec
    rw [← given_logMembers, ← map_onCopy]
    simp [map_bind]

theorem fst_logBlocks (run : Step → Run Result) (c : Context) (last : Option Result)
    (us : List Block) : Prod.fst <$> logBlocks run c last us = runBlocks run c last us := by
  induction us generalizing last with
  | nil => rfl
  | cons u rest ih =>
    unfold logBlocks runBlocks
    rw [← fst_logBlock, map_bind, bind_map_left]
    congr 1
    funext result
    obtain ⟨progress, log⟩ := result
    cases progress with
    | stop result => simp
    | goOn last =>
      dsimp only
      rw [← ih last]
      simp

theorem runFlowBody_eq (runner : Runner) (par : Action) (flow : Flow) (c : Context) :
    runFlowBody runner par flow c = logFlow runner par flow c >>= fun p => finish flow p.1 := by
  unfold runFlowBody logFlow
  simp only [bind_assoc, ← fst_logBlocks, bind_map_left]
  rfl

/-! ## What is recorded -/

theorem fst_of_logMembers {dec : List (Step × Bool)} (h : logMembers run dec w = .ok ms w') :
    ms.map Prod.fst = dec.map Prod.fst := by
  induction dec generalizing ms w with
  | nil =>
    cases h
    rfl
  | cons d rest ih =>
    obtain ⟨s, b⟩ := d
    have first : ∃ own more w₁, logMembers run rest w₁ = .ok more w' ∧ ms = (s, own) :: more := by
      cases b with
      | true =>
        obtain ⟨_, w₁, -, h⟩ := bind_eq_ok h
        obtain ⟨own, _, -, h⟩ := bind_eq_ok h
        obtain ⟨more, _, hl, ⟨⟩⟩ := bind_eq_ok h
        exact ⟨own, more, _, hl, rfl⟩
      | false =>
        obtain ⟨own, _, -, h⟩ := bind_eq_ok h
        obtain ⟨more, _, hl, ⟨⟩⟩ := bind_eq_ok h
        exact ⟨own, more, _, hl, rfl⟩
    obtain ⟨own, more, _, hl, rfl⟩ := first
    exact congrArg (s :: ·) (ih hl)

theorem get?_ofPairs_given (hd : (ms.map fun m => m.1.id).Nodup)
    {m : Step × Option Result} (mem : m ∈ ms) : (ofPairs (given ms)).get? m.1.id = m.2 := by
  have hn : ((given ms).map Prod.fst).Sublist (ms.map fun m => m.1.id) := by
    unfold given
    rw [map_filterMap]
    clear hd mem
    induction ms with
    | nil => exact .slnil
    | cons n rest ih =>
      obtain ⟨s, own⟩ := n
      cases own with
      | none => exact ih.cons _
      | some result => exact ih.cons_cons _
  obtain ⟨s, own⟩ := m
  cases own with
  | some result =>
    refine get?_ofPairs (hn.nodup hd) ?_
    exact mem_filterMap.2 ⟨(s, some result), mem, rfl⟩
  | none =>
    refine get?_ofPairs_of_not_mem fun hf => ?_
    obtain ⟨e, hm, hna⟩ := mem_map.1 hf
    obtain ⟨n, ho, hs⟩ := mem_filterMap.1 hm
    obtain ⟨result, hg, rfl⟩ := Option.map_eq_some_iff.1 hs
    have one := inj_on_of_nodup_map hd ho mem hna
    rw [one] at hg
    cases hg

theorem get?_steps_of_settle (h : settle c s res w = .ok () w') :
    w'.steps.get? s.id = some (.obj res) := by
  obtain ⟨_, w₁, hw, ha⟩ := bind_eq_ok h
  cases hw
  have hs : Keeps (Stays World.steps) (assign c s) := keeps_assign (fun _ _ => rfl) c s
  have hsa := hs { w with steps := w.steps.put s.id (.obj res) }
  rw [ha] at hsa
  rw [show w'.steps = _ from hsa]
  exact get?_put_self _ _ _

abbrev StaysAt (id : String) : World → World → Prop :=
  Stays fun w => w.steps.get? id

theorem writable_staysAt {ids : List String} (ho : id ∉ ids) : Writable (StaysAt id) ids :=
  ⟨fun _ _ => rfl, fun _ _ _ mem => get?_put_of_ne (fun hs => ho (by rwa [hs])) _ _⟩

theorem staysAt_onCopy {α : Type} (id : String) (x : Run α) : Keeps (StaysAt id) (onCopy x) := by
  intro w
  unfold onCopy
  cases x w <;> rfl

theorem get?_steps_of_mergeResults {rs : Entries Result}
    {ss : List Step} (hd : (ss.map Step.id).Nodup)
    (h : mergeResults c rs last ss w = .ok (.goOn last') w')
    (mem : s ∈ ss) : w'.steps.get? s.id = some (.obj ((rs.get? s.id).getD skipped)) := by
  induction ss generalizing last w with
  | nil => cases mem
  | cons t rest ih =>
    obtain ⟨new, hd⟩ := nodup_cons.1 hd
    obtain ⟨_, w₁, hs, h⟩ := bind_eq_ok h
    split at h
    · rcases mem_cons.1 mem with rfl | mem
      · have hk : Keeps (StaysAt s.id) (mergeResults c rs (some ((rs.get? s.id).getD skipped)) rest) :=
          closed_keeps.mergeResults rs _ ((writable_staysAt new).keeps_settle c)
        exact (hk.of_ok h).trans (get?_steps_of_settle hs)
      · exact ih hd h mem
    · cases h

theorem get?_steps_of_logBlock {u : Block}
    (hd : (u.steps.map Step.id).Nodup) (h : logBlock run c last u w = .ok (.goOn last', log) w') :
    log.map Prod.fst = u.steps ∧ ∀ e ∈ log, w'.steps.get? e.1.id = some (.obj e.2) := by
  cases u with
  | single s =>
    have one {result : Result} {w₁ : World} (hs : settle c s result w₁ = .ok () w') :
        [(s, result)].map Prod.fst = [s] ∧ ∀ e ∈ [(s, result)], w'.steps.get? e.1.id = some (.obj e.2) := by
      refine ⟨rfl, fun e he => ?_⟩
      rw [mem_singleton.1 he]
      exact get?_steps_of_settle hs
    obtain ⟨b, _, -, h⟩ := bind_eq_ok h
    split at h
    · obtain ⟨result, _, -, h⟩ := bind_eq_ok h
      obtain ⟨_, _, hs, h⟩ := bind_eq_ok h
      obtain ⟨hsa, rfl⟩ := EStateM.Result.ok.inj h
      obtain ⟨-, rfl⟩ := Prod.mk.inj hsa
      exact one hs
    · obtain ⟨_, _, hs, ⟨⟩⟩ := bind_eq_ok h
      exact one hs
  | group ss =>
    obtain ⟨dec, w₁, hde, h⟩ := bind_eq_ok h
    obtain ⟨members, w₂, hc, h⟩ := bind_eq_ok h
    obtain ⟨progress, w₃, hm, ⟨⟩⟩ := bind_eq_ok h
    have hsa : members.map Prod.fst = ss := by
      unfold onCopy at hc
      cases ran : logMembers run dec w₁ with
      | error e w₃ => rw [ran] at hc; cases hc
      | ok found w₃ =>
        rw [ran] at hc
        cases hc
        rw [fst_of_logMembers ran, fst_of_decideAll hde]
    refine ⟨by rw [map_map]; exact hsa, fun e he => ?_⟩
    obtain ⟨m, mem, rfl⟩ := mem_map.1 he
    have ids : (members.map fun m => m.1.id).Nodup := by
      have all : (members.map Prod.fst).map Step.id = members.map fun m => m.1.id := map_map
      rw [← all, hsa]
      exact hd
    have found := get?_steps_of_mergeResults hd hm (hsa ▸ mem_map_of_mem mem : m.1 ∈ ss)
    rw [found, get?_ofPairs_given ids mem]

/-- The blocks of a flow that comes to its end record what each of its steps gave, in order. The
result of a step stays where it is if no later step that runs by itself changes it. -/
theorem get?_steps_of_logBlocks {us : List Block}
    (ha : ∀ s, Block.single s ∈ us → s.parallel = false) (hd : ((us.flatMap Block.steps).map Step.id).Nodup)
    (h : logBlocks run c last us w = .ok (.goOn last', log) w') :
    log.map Prod.fst = us.flatMap Block.steps ∧ ∀ id, ((us.flatMap Block.steps).Pairwise fun s t =>
          s.id = id → t.parallel = false → Keeps (StaysAt id) (run t)) →
        ∀ e ∈ log, e.1.id = id → w'.steps.get? id = some (.obj e.2) := by
  induction us generalizing last w log with
  | nil =>
    cases h
    exact ⟨rfl, nofun⟩
  | cons u rest ih =>
    rw [flatMap_cons, map_append] at hd
    obtain ⟨here, hl, hap⟩ := nodup_append.1 hd
    obtain ⟨⟨progress, first⟩, w₁, ran, h⟩ := bind_eq_ok h
    cases progress with
    | stop result => cases h
    | goOn last₁ =>
      obtain ⟨⟨progress, more⟩, w₂, hf, ⟨⟩⟩ := bind_eq_ok h
      obtain ⟨ho, hfou⟩ := get?_steps_of_logBlock here ran
      obtain ⟨hor, hfo⟩ := ih (fun s hs => ha s (mem_cons_of_mem _ hs)) hl hf
      refine ⟨by rw [map_append, ho, hor, flatMap_cons], fun id hke e he hsa => ?_⟩
      rw [flatMap_cons] at hke
      obtain ⟨-, hk, hac⟩ := pairwise_append.1 hke
      rcases mem_append.1 he with he | he
      · have mem : e.1 ∈ u.steps := ho ▸ mem_map_of_mem he
        -- The blocks that follow hold other ids, and their steps leave this one alone.
        have hot : id ∉ (rest.flatMap Block.steps).map Step.id :=
          fun mem' => hap _ (mem_map_of_mem mem) _ mem' hsa
        have kept : Keeps (StaysAt id) (runBlocks run c last₁ rest) := by
          refine closed_keeps.runBlocks ((writable_staysAt hot).parts (fun s hs => ?_) ?_ c) last₁
          · have mem' : s ∈ rest.flatMap Block.steps := mem_flatMap.2 ⟨.single s, hs, mem_cons_self⟩
            exact hac e.1 mem s mem' hsa (ha s (mem_cons_of_mem _ hs))
          · exact fun members => staysAt_onCopy id _
        rw [← fst_logBlocks] at kept
        exact (kept.of_ok (map_eq_ok hf)).trans (hsa ▸ hfou e he)
      · exact hfo id hk e he hsa

/-! ## What can be overwritten -/

/-- An action can write a result under an id among those of the flow that uses it: its flow has a
step with that id, or a step that runs by itself and whose action can. -/
inductive Overwrites (registry : Entries Action) (id : String) : Action → Prop
  | own {action : Action} {flow : Flow} {step : Step} (part : action.flow = some flow)
      (mem : step ∈ flow.steps) (same : step.id = id) : Overwrites registry id action
  | through {action used : Action} {flow : Flow} {step : Step}
      (part : action.flow = some flow) (mem : step ∈ flow.steps) (alone : step.parallel = false)
      (found : actionOf action registry step = .ok used) (writes : Overwrites registry id used) :
      Overwrites registry id action

def Spares (c : Context) (id : String) (action : Action) : Prop :=
  ∀ registry, registryOf c = .ok registry → ¬ Overwrites registry id action

theorem staysAt_pauseAfter (id : String) (n : Nat) : Keeps (StaysAt id) (pauseAfter n) := fun _ => rfl

/-- An action that does not overwrite a result leaves it as it is. The induction is on the levels
that are left. -/
theorem staysAt_runAt (ls : Nat) (hs : Spares c id act) :
    Keeps (StaysAt id) (runAt ls act c) := by
  induction ls using Nat.strongRecOn generalizing act c with
  | ind ls ih =>
    have hse (req : Outbound.Request) (lim : Float) : Keeps (StaysAt id) (send req lim) := fun _ => rfl
    intro w
    refine ending_runAt (R := StaysAt id) (fun call _ w => ?_) (fun call _ => ?_) (fun call _ => ?_) ?_ w
    · exact ending_runHttp (fun req _ _ => hse req) (staysAt_pauseAfter id)
    · exact keeps_runLlm (fun _ req _ _ => hse req) (staysAt_pauseAfter id)
    · refine keeps_runDb fun op w => ?_
      unfold onStore
      cases op.run w.store <;> rfl
    · intro left flow hm hp
      by_cases hk : ∃ reg, registryOf c = .ok reg
      · obtain ⟨reg, hk⟩ := hk
        have ho : id ∉ flow.steps.map Step.id := by
          intro mem
          obtain ⟨step, mem, hsa⟩ := mem_map.1 mem
          exact hs reg hk (.own hp mem hsa)
        refine keeps_runFlowBody (writable_staysAt ho) ?_ fun _ _ members => staysAt_onCopy id _
        intro reg hk s mem ha
        refine keeps_runStep (fun used inp due hf => ?_) (staysAt_pauseAfter id)
        refine ih left (by omega) fun reg' hk' hw => ?_
        cases hk.symm.trans hk'
        exact hs reg hk (.through hp mem ha hf hw)
      · intro w
        unfold runFlowBody
        cases hu : registryOf c with
        | error e => rfl
        | ok reg => exact absurd ⟨reg, hu⟩ hk

theorem staysAt_runStep {left : Nat} {par : Action}
    {reg : Entries Action} {step : Step} (hk : registryOf c = .ok reg)
    (hs : ∀ used, actionOf par reg step = .ok used → ¬ Overwrites reg id used) :
    Keeps (StaysAt id) (runStep (runAt left) par reg c step) := by
  refine keeps_runStep (fun used inp due hf => ?_) (staysAt_pauseAfter id)
  refine staysAt_runAt left fun reg' hk' => ?_
  cases hk.symm.trans hk'
  exact hs used hf

/-! ## The result of a flow -/

theorem flowResult_eq {r : String} (hr : flow.returnStep = some r) (hn : r ≠ "")
    (hf : w.steps.get? r = some (.obj res)) (last : Option Result) :
    flowResult flow last w = .ok res w := by
  generalize ho : flowResult flow last = x
  unfold flowResult at ho
  split at ho
  · rename_i none
    rw [hr] at none
    cases none
  · rename_i he
    rw [hr] at he
    cases he
    exact absurd rfl hn
  · rename_i hs
    rw [hr] at hs
    cases hs
    rw [← ho, get_bind, hf]
    rfl

theorem run_flow (hk : act.kind = "flow") (hp : act.flow = some flow) (c : Context) :
    Action.run act c = logAction act c >>= fun p => finish flow p.1 := by
  unfold Action.run runAt logAction
  rw [bind_assoc]
  simp only [hk, hp]
  cases (maxDepth + 1 - c.depth).toNat with
  | zero => rfl
  | succ left => simp only [runFlowBody_eq]

def writtenFlow (steps : List (String × String)) (more : Json.Members) : Json :=
  .obj (("steps", .arr (steps.map fun s => .obj [("id", .str s.1), ("use", .str s.2)])) :: more)

/-- A flow with the steps `a` and `b` that returns what `a` gave. Its second step uses a flow whose
one step has the given id. -/
def nestedSpec (id : String) : Json.Members := [
  ("db", .obj [("path", .str "app.db"), ("models", .arr [])]),
  ("api", .obj [("crud", .arr []), ("actions", .arr [
    .obj [("name", .str "one"), ("kind", .str "value"), ("value", .obj [("data", .int 1)])],
    .obj [("name", .str "two"), ("kind", .str "value"), ("value", .obj [("data", .int 2)])],
    .obj [("name", .str "inner"), ("kind", .str "flow"), ("flow", writtenFlow [(id, "two")] [])],
    .obj [("name", .str "outer"), ("kind", .str "flow"),
      ("flow", writtenFlow [("a", "one"), ("b", "inner")] [("return_step", .str "a")])]])])]

def giving (name : String) (n : Int) : Action where
  name
  kind := "value"
  path := "/api/actions/" ++ name
  value := some { data := .int n }

def inner (id : String) : Action where
  name := "inner"
  kind := "flow"
  path := "/api/actions/inner"
  flow := some { steps := [{ id, use := "two" }] }

def outer : Action where
  name := "outer"
  kind := "flow"
  path := "/api/actions/outer"
  flow := some {
    steps := [{ id := "a", use := "one" }, { id := "b", use := "inner" }]
    returnStep := some "a" }

def nested (id : String) : Entries Action :=
  [("one", giving "one" 1), ("two", giving "two" 2), ("inner", inner id), ("outer", outer)]

def nestedContext (id : String) : Context :=
  (Context.start [] .null .null).withRegistry (nested id)

theorem not_overwrites_inner {b : String} (ne : id ≠ b) : ¬ Overwrites (nested id) b (inner id) := by
  intro hw
  cases hw with
  | own hp mem hs =>
    cases hp
    cases mem_singleton.1 mem
    exact ne hs
  | through hp mem ha hf hw =>
    cases hp
    cases mem_singleton.1 mem
    cases hf
    cases hw with
    | own hp _ _ => cases hp
    | through hp _ _ _ _ => cases hp

end Action

end Appwright
