import Appwright.Proofs.Action.Effects
import Mathlib.Logic.Function.Iterate

/-!
# Flows end

A flow may use flows, also in circles, and nothing but a number in the context tells how deep they
are nested. `unfolded` is the recursion that this number is to stop: an action, given how the
actions of a flow's steps are run, with a check of the number and no other bound. The calls that it
makes are described by `Calls`, and it depends on how actions are run for these calls only
(`unfolded_congr`). Each of them has the next number (`Calls.depth_eq`), so from some unfolding on it
does not matter any more what a further call would do (`iterate_unfolded_eq_run`), and no body of a
flow is entered deeper than the number allows.
-/

namespace Appwright.Action

open List Spec Entries Action

variable {par act : Action} {reg : Entries Action} {c : Context} {runner runner' : Runner}
  {run run' : Step → Run Result} {last : Option Result} {flow : Flow} {n : Nat}

/-! ## One level -/

def flowOf? (action : Action) : Option Flow :=
  if action.kind = "flow" then action.flow else none

/-- What an action does, given how the actions of a flow's steps are run. The body of a flow is
entered unless it is nested too deep. -/
def unfolded (runner : Runner) : Runner := fun action c =>
  match flowOf? action with
  | some flow =>
    if c.depth ≤ maxDepth then do
      note action
      runFlowBody runner action flow c
    else do
      note action
      throw .tooDeep
  | none => runAt 0 action c

def Enters (action : Action) (flow : Flow) (c : Context) : Prop :=
  flowOf? action = some flow ∧ c.depth ≤ maxDepth

abbrev Call := Action × Context

/-- A call that the body of a flow can make: of an action that one of its steps uses, in a context
for that step. -/
def Calls (call inner : Call) : Prop :=
  ∃ flow registry step input deadline, Enters call.1 flow call.2 ∧
    registryOf call.2 = .ok registry ∧ step ∈ flow.steps ∧
    actionOf call.1 registry step = .ok inner.1 ∧
    inner.2 = stepContext { call.2 with shared := true } input deadline

/-- A call that is made in the course of another, with a number of flows around it. -/
inductive Nested : Nat → Call → Call → Prop
  | here (call : Call) : Nested 0 call call
  | inside {n : Nat} {call inner innermost : Call} (outer : Nested n call inner)
      (made : Calls inner innermost) : Nested (n + 1) call innermost

/-! ## Runners that agree on some calls -/

/-- What follows a program has to agree only on what it gives. -/
theorem bind_congr_of_ok {ε σ α β : Type} {x : EStateM ε σ α} {f g : α → EStateM ε σ β}
    (hs : ∀ a s s', x s = .ok a s' → f a = g a) : x >>= f = x >>= g := by
  funext s
  cases ran : x s with
  | ok a s' => rw [bind_of_ok ran, bind_of_ok ran, hs a s s' ran]
  | error e s' => rw [bind_of_error ran, bind_of_error ran]

theorem runStep_congr {step : Step}
    (hs : ∀ action inp due, actionOf par reg step = .ok action →
      runner action (stepContext c inp due) = runner' action (stepContext c inp due)) :
    runStep runner par reg c step = runStep runner' par reg c step := by
  refine bind_congr_of_ok fun action _ _ hf => ?_
  simp only [fun inp due => hs action inp due (eq_ok_of_attempt hf).1]

theorem runMembers_congr {ms : List (Step × Bool)} (hs : ∀ s ∈ ms.map Prod.fst, run s = run' s) :
    runMembers run ms = runMembers run' ms := by
  induction ms with
  | nil => rfl
  | cons m rest ih =>
    obtain ⟨here, hr'⟩ := forall_mem_cons.1 hs
    unfold runMembers
    rw [here, ih hr']

theorem runBlock_congr {block : Block} (hsa : ∀ s ∈ block.steps, run s = run' s) :
    runBlock run c last block = runBlock run' c last block := by
  cases block with
  | single s =>
    unfold runBlock
    dsimp only
    rw [hsa s mem_cons_self]
  | group ss =>
    unfold runBlock
    refine bind_congr_of_ok fun dec _ _ ran => ?_
    rw [runMembers_congr fun s hs => hsa s (fst_of_decideAll ran ▸ hs)]

theorem runBlocks_congr {bs : List Block} (hs : ∀ s ∈ bs.flatMap Block.steps, run s = run' s) :
    runBlocks run c last bs = runBlocks run' c last bs := by
  induction bs generalizing last with
  | nil => rfl
  | cons u rest ih =>
    rw [flatMap_cons, forall_mem_append] at hs
    unfold runBlocks
    rw [runBlock_congr hs.1]
    refine bind_congr_of_ok fun progress _ _ _ => ?_
    cases progress with
    | stop res => rfl
    | goOn last => exact ih hs.2

/-- What an action does depends on how actions are run only for the calls that it can make. -/
theorem unfolded_congr
    (hsa : ∀ mid, Calls (act, c) mid → runner mid.1 mid.2 = runner' mid.1 mid.2) :
    unfolded runner act c = unfolded runner' act c := by
  unfold unfolded
  cases hp : flowOf? act with
  | none => rfl
  | some flow =>
    dsimp only
    split
    next hs =>
      refine bind_congr_of_ok fun _ _ _ _ => ?_
      refine bind_congr_of_ok fun registry _ _ hf => ?_
      have hk := (eq_ok_of_attempt hf).1
      have hst : runBlocks (runStep runner act registry { c with shared := true })
          { c with shared := true } none (blocks flow.steps) =
          runBlocks (runStep runner' act registry { c with shared := true })
          { c with shared := true } none (blocks flow.steps) := by
        refine runBlocks_congr fun s mem => runStep_congr fun used inp due ok => ?_
        rw [flatMap_steps_blocks] at mem
        exact hsa (used, _) ⟨flow, registry, s, inp, due, ⟨hp, hs⟩, hk, mem, ok, rfl⟩
      dsimp only
      rw [hst]
    next => rfl

/-! ## The number of a call -/

theorem depth_stepContext (c : Context) (inp : Json) (due : Option Float) :
    (stepContext c inp due).depth = c.depth + 1 := by
  have hfr (ns : List String) (ho : depthName ∉ ns) (rest : Json.Members) :
      get? depthName ((ns.filterMap fun name =>
        (c.values.get? name).map fun v => (name, v)) ++ rest) = get? depthName rest := by
    induction ns with
    | nil => rfl
    | cons name ns ih =>
      obtain ⟨ne, ho⟩ := not_or.1 (mem_cons.not.1 ho)
      cases hf : c.values.get? name with
      | none => simpa [hf] using ih ho
      | some v => simpa [hf, get?, Ne.symm ne] using ih ho
  have hc : (stepContext c inp due).values.get? depthName = some (.int (c.depth + 1)) := by
    have ho : depthName ∉ ["request", "hook", "services", "actions"] := by decide
    unfold stepContext
    dsimp only
    rw [append_assoc, append_assoc]
    exact hfr _ ho _
  rw [Context.depth, hc]
  rfl

variable {call mid : Call}

theorem Calls.depth_eq (hm : Calls call mid) : mid.2.depth = call.2.depth + 1 := by
  obtain ⟨flow, registry, step, inp, due, -, -, -, -, hc⟩ := hm
  rw [hc, depth_stepContext]
  rfl

theorem Nested.depth_eq (hn : Nested n call mid) : mid.2.depth = call.2.depth + n := by
  induction hn with
  | here => simp
  | inside _ hm ih =>
    rw [hm.depth_eq, ih]
    omega

/-! ## The recursion and its end -/

theorem runAt_of_flowOf? (hp : flowOf? act = some flow) (ls : Nat) (c : Context) : runAt ls act c = (do
      note act
      match ls with
      | 0 => throw .tooDeep
      | left + 1 => runFlowBody (runAt left) act flow c) := by
  unfold flowOf? at hp
  split at hp
  next hk =>
    unfold runAt
    rw [hk, hp]
    rfl
  next => cases hp

theorem runAt_of_flowOf?_eq_none (hp : flowOf? act = none) (ls : Nat) (c : Context) :
    runAt ls act c = runAt 0 act c := by
  unfold runAt
  split <;> try rfl
  next hk =>
    unfold flowOf? at hp
    rw [if_pos hk] at hp
    rw [hp]

theorem run_eq_unfolded : Action.run = unfolded Action.run := by
  funext act c
  cases hp : flowOf? act with
  | none => rw [unfolded, hp, run, runAt_of_flowOf?_eq_none hp]
  | some flow =>
    by_cases hs : c.depth ≤ maxDepth
    · obtain ⟨left, hl⟩ : ∃ left : Nat, (maxDepth + 1 - c.depth).toNat = left + 1 :=
        ⟨(maxDepth - c.depth).toNat, by omega⟩
      -- Each call that the body makes has one level less.
      have hsa : unfolded (runAt left) act c = unfolded run act c := by
        refine unfolded_congr fun mid hm => ?_
        have next := hm.depth_eq
        dsimp only at next
        rw [run, show (maxDepth + 1 - mid.2.depth).toNat = left by omega]
      rw [← hsa, run, hl, runAt_of_flowOf? hp, unfolded, hp]
      simp only [if_pos hs]
    · have none : (maxDepth + 1 - c.depth).toNat = 0 := by omega
      rw [run, none, runAt_of_flowOf? hp, unfolded, hp]
      simp only [if_neg hs]

/-- Whatever a call beyond the last level would do, unfolding the recursion often enough gives what
the action does. -/
theorem iterate_unfolded_eq_run (base : Runner) (he : (maxDepth + 1 - c.depth).toNat < n) :
    (unfolded^[n] base) act c = Action.run act c := by
  induction n generalizing act c with
  | zero => omega
  | succ n ih =>
    rw [Function.iterate_succ_apply', run_eq_unfolded]
    refine unfolded_congr fun mid hm => ih ?_
    have next := hm.depth_eq
    obtain ⟨_, _, _, _, _, ⟨-, hs⟩, -⟩ := hm
    dsimp only at next hs
    omega

theorem run_of_maxDepth_lt (hp : flowOf? act = some flow) (hd : maxDepth < c.depth) :
    Action.run act c = (do note act; throw .tooDeep) := by
  rw [run_eq_unfolded, unfolded, hp]
  exact if_neg (Int.not_le.2 hd)

/-- Running an action ends, whatever flows use each other. It follows the recursion, which stops by
the number in the context alone: after as many unfoldings as there are levels left, and one, it does
not depend on what a further call would do. At every call that is made in its course, with as many
flows around it as the number has grown, an action depends on the calls below it only, and the body of
a flow is entered up to the last level and fails from there on. -/
theorem run_ends (action : Spec.Action) (c : Context) :
    Action.run action c = unfolded Action.run action c ∧
    (∀ (base : Runner) (n : Nat), (maxDepth + 1 - c.depth).toNat < n →
      (unfolded^[n] base) action c = Action.run action c) ∧
    (∀ (n : Nat) (call : Call), Nested n (action, c) call →
      (∀ runner runner' : Runner,
        (∀ inner, Calls call inner → runner inner.1 inner.2 = runner' inner.1 inner.2) →
          unfolded runner call.1 call.2 = unfolded runner' call.1 call.2) ∧
      ∀ flow, flowOf? call.1 = some flow →
        (Enters call.1 flow call.2 → c.depth + n ≤ 24) ∧
        (24 < c.depth + n →
          Action.run call.1 call.2 = (do note call.1; throw .tooDeep))) := by
  refine ⟨congrFun (congrFun run_eq_unfolded action) c,
    fun base n enough => iterate_unfolded_eq_run base enough, fun n call nested => ⟨?_, ?_⟩⟩
  · exact fun runner runner' same => unfolded_congr same
  · intro flow part
    have depth : call.2.depth = c.depth + n := nested.depth_eq
    refine ⟨fun enters => ?_, fun deep => ?_⟩
    · rw [← depth]
      exact enters.2
    · rw [← depth] at deep
      exact run_of_maxDepth_lt part deep

/-! ## Two flows in a circle -/

def handing (name other : String) : Action where
  name
  kind := "flow"
  flow := some { steps := [{ id := "next", use := other }] }

def circle : Entries Action :=
  [("there", handing "there" "back"), ("back", handing "back" "there")]

/-- The calls that the flows make, from one outside of them on. -/
def around : Nat → Call
  | 0 => (handing "there" "back", (Context.start [] .null .null).withRegistry circle)
  | n + 1 => (if n % 2 = 0 then handing "back" "there" else handing "there" "back",
      stepContext { (around n).2 with shared := true } .null none)

theorem registry_around (n : Nat) : (around n).2.registry = some circle := by
  induction n with
  | zero => rfl
  | succ n ih => exact ih

theorem action_around (n : Nat) :
    (around n).1 = if n % 2 = 0 then handing "there" "back" else handing "back" "there" := by
  cases n with
  | zero => rfl
  | succ n =>
    rw [around]
    by_cases he : n % 2 = 0
    · rw [if_pos he, if_neg (by omega)]
    · rw [if_neg he, if_pos (by omega)]

theorem depth_around (n : Nat) : (around n).2.depth = n := by
  induction n with
  | zero => decide
  | succ n ih =>
    have := depth_stepContext { (around n).2 with shared := true } .null none
    rw [around]
    rw [this]
    change (around n).2.depth + 1 = _
    omega

theorem calls_around (hs : n ≤ 24) : Calls (around n) (around (n + 1)) := by
  have he : (around n).2.depth ≤ maxDepth := by
    rw [depth_around, maxDepth]
    omega
  have hk : registryOf (around n).2 = .ok circle := by
    rw [registryOf, registry_around]
    rfl
  by_cases hev : n % 2 = 0
  · have here : (around n).1 = handing "there" "back" := by rw [action_around, if_pos hev]
    refine ⟨_, circle, { id := "next", use := "back" }, .null, none, ⟨by rw [here]; rfl, he⟩,
      hk, mem_singleton_self _, ?_, rfl⟩
    rw [here, action_around, if_neg (by omega)]
    rfl
  · have here : (around n).1 = handing "back" "there" := by rw [action_around, if_neg hev]
    refine ⟨_, circle, { id := "next", use := "there" }, .null, none, ⟨by rw [here]; rfl, he⟩,
      hk, mem_singleton_self _, ?_, rfl⟩
    rw [here, action_around, if_pos (by omega)]
    rfl

theorem nested_around (hs : n ≤ 25) : Nested n (around 0) (around n) := by
  induction n with
  | zero => exact .here _
  | succ n ih => exact .inside (ih (by omega)) (calls_around (by omega))

/-- Two flows that use each other are entered down to the last level, and end there. -/
theorem circle_ends :
    Nested 24 (around 0) (around 24) ∧ Calls (around 24) (around 25) ∧
      Action.run (around 25).1 (around 25).2 = (do note (around 25).1; throw .tooDeep) ∧
      (unfolded^[26] fun _ _ => pure []) (around 0).1 (around 0).2 =
        Action.run (around 0).1 (around 0).2 := by
  obtain ⟨-, stable, inside⟩ := run_ends (around 0).1 (around 0).2
  have deep : (24 : Int) < (around 0).2.depth + (25 : Nat) := by
    decide
  have levels : (maxDepth + 1 - (around 0).2.depth).toNat < 26 := by
    decide
  have flow : flowOf? (around 25).1 =
      some { steps := [{ id := "next", use := "there" }] } := by
    rfl
  exact ⟨nested_around (by omega), calls_around (by omega),
    ((inside 25 (around 25) (nested_around (by omega))).2 _ flow).2 deep, stable _ 26 levels⟩

end Appwright.Action
