import Appwright.Proofs.Server.Answer

/-!
# Hooks and the requests that set them off

A row is changed before its hooks run, and the response is sent after them. So a request that has
changed a row is answered as it should be unless a hook fails on the way, where nothing catches the
failure; then it is not answered at all, though the row was changed.

Most of what can go wrong in a hook is caught: its action may be unknown, fail or break, its
condition may be false or wrong. `HookFails` lists the two things that are not: a condition that
fails for a reason which is not its form, and a result that the store does not take back. A hook
that runs beside the request may fail as well (`HooksBreak`), so only the others can leave a client
without a response (`altering_answered_unless_hooks_break`).
-/

namespace Appwright.Server

open Spec Json List

variable {setup : Setup} {r : Request} {c : Change} {hook : Hook} {s : State} {u : PUnit}

/-! ## One hook -/

def isUnmoved (c : Change) (hook : Hook) : Bool :=
  let watched := hook.whenChanged.getD []
  !watched.isEmpty && c.event == "after_update" && c.old.isSome && !hasChanged c watched

def verdict (setup : Setup) (c : Change) (hook : Hook) : Condition.Outcome :=
  if hook.condition.truthy then
    Condition.eval (hookCondition hook.condition) (conditionContext setup c)
  else .ok true

inductive HookFails (setup : Setup) (r : Request) (c : Change) (hook : Spec.Hook) (s : State) : Prop
  | condition {e : Condition.Error} (moved : isUnmoved c hook = false)
      (wrong : verdict setup c hook = .error e) (met : e.isForm = false)
  | writeback {action : Spec.Action} {result : Action.Result} {s' : State}
      (moved : isUnmoved c hook = false) (holds : verdict setup c hook = .ok true)
      (known : setup.actions.get? hook.action = some action)
      (ran : runAction action (hookContext setup r c hook) s = .ok (.ok result) s')
      (given : writtenBack hook result ≠ []) (row : c.id ≠ 0)
      (refused : Fails (Store.update c.model c.id (writtenBack hook result)) s'.store)

theorem not_fails_auditHook (what : String) (fs : Members) : ¬ Fails (auditHook setup r c hook what fs) s :=
  not_fails_audit _ _ _ _

theorem stays_store_audit (setup : Setup) (r : Request) (fs : Members) :
    Keeps (Stays State.store) (audit setup r fs) :=
  Keeps.ite (fun _ => keeps_modify fun _ => rfl) fun _ => keeps_pure _

theorem hookHolds_eq_ok_true (holds : verdict setup c hook = .ok true) :
    hookHolds setup r c hook s = .ok true s := by
  unfold verdict at holds
  unfold hookHolds
  cases ha : hook.condition.truthy with
  | false => rfl
  | true =>
    rw [ha, if_pos rfl] at holds
    rw [holds]
    rfl

theorem exists_hookHolds_eq_ok_false (holds : verdict setup c hook ≠ .ok true)
    (hf : ∀ e, verdict setup c hook = .error e → e.isForm) :
    ∃ s', hookHolds setup r c hook s = .ok false s' := by
  have hr (what : String) (fs : Members) : ∃ s',
      (do auditHook setup r c hook what fs; return false : Handler Bool) s = .ok false s' := by
    obtain ⟨u, s', run⟩ := exists_ok_of_not_fails (not_fails_auditHook what fs)
    exact ⟨s', bind_of_ok run⟩
  unfold verdict at holds hf
  unfold hookHolds
  cases ha : hook.condition.truthy with
  | false => simp [ha] at holds
  | true =>
    simp only [ha, if_true] at holds hf
    cases hre : Condition.eval (hookCondition hook.condition) (conditionContext setup c) with
    | ok b =>
      cases b with
      | true => exact absurd hre holds
      | false => exact hr _ _
    | error e =>
      show ∃ s', (if !e.isForm then _ else _ : Handler Bool) s = _
      rw [hf e hre]
      exact hr _ _

theorem fails_hookHolds {e : Condition.Error} (hw : verdict setup c hook = .error e)
    (met : e.isForm = false) : Fails (hookHolds setup r c hook) s := by
  unfold verdict at hw
  unfold hookHolds
  cases ha : hook.condition.truthy with
  | false => simp [ha] at hw
  | true =>
    rw [ha, if_pos rfl] at hw
    rw [hw]
    dsimp only
    rw [met]
    exact ⟨.condition e, s, rfl⟩

theorem fails_hookHolds_bind_iff {next : Handler Unit} :
    Fails (do if ← hookHolds setup r c hook then next) s ↔
      (∃ e, verdict setup c hook = .error e ∧ e.isForm = false) ∨
        verdict setup c hook = .ok true ∧ Fails next s := by
  by_cases holds : verdict setup c hook = .ok true
  · rw [Fails, bind_of_ok (hookHolds_eq_ok_true holds)]
    simp [holds, Fails]
  by_cases met : ∃ e, verdict setup c hook = .error e ∧ e.isForm = false
  · obtain ⟨e, hw, ho⟩ := met
    exact iff_of_true (fails_bind_iff.2 (.inl (fails_hookHolds hw ho))) (.inl ⟨e, hw, ho⟩)
  · have hf (e : Condition.Error) (hw : verdict setup c hook = .error e) : e.isForm := by
      by_contra ho
      exact met ⟨e, hw, Bool.eq_false_iff.2 ho⟩
    obtain ⟨s', run⟩ := exists_hookHolds_eq_ok_false (r := r) (s := s) holds hf
    rw [Fails, bind_of_ok run]
    refine iff_of_false (not_fails_pure _ _) ?_
    rintro (ho | ⟨ho, -⟩)
    · exact met ho
    · exact holds ho

theorem fails_patch_iff {patch : Members} {what : String} {fs : Members} : Fails (if c.id != 0 then do
        let _ ← onStore (Store.update c.model c.id patch)
        auditHook setup r c hook what fs
      else pure () : Handler Unit) s ↔
      c.id ≠ 0 ∧ Fails (Store.update c.model c.id patch) s.store := by
  by_cases row : c.id = 0
  · simp [row, not_fails_pure]
  · have ho : (c.id != 0) := bne_iff_ne.2 row
    rw [if_pos ho, fails_bind_iff_left fun _ _ _ => not_fails_auditHook what fs, fails_onStore_iff]
    exact (and_iff_right row).symm

theorem fails_runAction_bind_iff {act : Action} {ctx : Action.Context}
    {next : Except Action.Error Action.Result → Handler Unit} (ht : ∀ e s', ¬ Fails (next (.error e)) s') :
    Fails (runAction act ctx >>= next) s ↔ ∃ res s', runAction act ctx s = .ok (.ok res) s' ∧
        Fails (next (.ok res)) s' := by
  rw [fails_bind_iff, or_iff_right (not_fails_runAction _ _ _)]
  constructor
  · rintro ⟨out, s', ran, hf⟩
    cases out with
    | error e => exact absurd hf (ht e s')
    | ok res => exact ⟨res, s', ran, hf⟩
  · rintro ⟨res, s', ran, hf⟩
    exact ⟨.ok res, s', ran, hf⟩

theorem fails_runHookAction_iff : Fails (runHookAction setup r c hook) s ↔
      ∃ act, setup.actions.get? hook.action = some act ∧
        ∃ res s', runAction act (hookContext setup r c hook) s = .ok (.ok res) s' ∧
          writtenBack hook res ≠ [] ∧ c.id ≠ 0 ∧
          Fails (Store.update c.model c.id (writtenBack hook res)) s'.store := by
  unfold runHookAction
  cases setup.actions.get? hook.action with
  | none => simp [not_fails_auditHook]
  | some act =>
    simp only [Option.some.injEq, exists_eq_left']
    refine (fails_runAction_bind_iff fun e s' => not_fails_auditHook _ _).trans ?_
    refine exists_congr fun res => exists_congr fun s' => and_congr_right fun _ => ?_
    refine (fails_bind_iff_or fun _ s'' ht => ?_).trans (or_iff_right (not_fails_auditHook _ _))
    have hs : s''.store = s'.store := (stays_store_audit _ _ _).of_ok ht
    rw [← hs]
    cases writtenBack hook res with
    | nil => simp [not_fails_pure]
    | cons f rest => exact fails_patch_iff.trans (and_iff_right (cons_ne_nil f rest)).symm

theorem runHook_eq : runHook setup r c hook = (if isUnmoved c hook then
    auditHook setup r c hook "hook_skip" [("reason", .str "when_changed"),
      ("fields", .ofTexts (hook.whenChanged.getD [])), ("row_id", .int c.id)]
    else do if ← hookHolds setup r c hook then runHookAction setup r c hook) :=
  rfl

theorem fails_runHook_iff : Fails (runHook setup r c hook) s ↔ HookFails setup r c hook s := by
  rw [runHook_eq]
  cases hm : isUnmoved c hook with
  | true =>
    refine iff_of_false (not_fails_auditHook _ _) fun hf => ?_
    cases hf with
    | condition ho _ _ => cases hm.symm.trans ho
    | writeback ho _ _ _ _ _ _ => cases hm.symm.trans ho
  | false =>
    refine fails_hookHolds_bind_iff.trans ?_
    rw [fails_runHookAction_iff]
    constructor
    · rintro (⟨e, hw, met⟩ | ⟨holds, act, hk, res, s', ran, hg, row, hr⟩)
      · exact .condition hm hw met
      · exact .writeback hm holds hk ran hg row hr
    · intro hf
      cases hf with
      | condition _ hw met => exact .inl ⟨_, hw, met⟩
      | writeback _ holds hk ran hg row hr =>
        exact .inr ⟨holds, _, hk, _, _, ran, hg, row, hr⟩

/-! ## The hooks of a change -/

def hooksOf (setup : Setup) (c : Change) : List Hook :=
  setup.app.hooks.filter fun h => h.model == c.model.name && h.event == c.event

def HooksBreak (setup : Setup) (r : Request) (c : Change) : List Hook → State → Prop
  | [], _ => False
  | hook :: rest, s =>
    hook.mode ≠ "async" ∧ HookFails setup r c hook s ∨
      HooksBreak setup r c rest (ending (runHook setup r c hook s))

def hookTurn (setup : Setup) (r : Request) (c : Change) (hook : Hook) (u : PUnit) :
    Handler (ForInStep PUnit) := do
  if hook.mode == "async" then
    let _ ← caught (runHook setup r c hook)
    return .yield u
  else
    runHook setup r c hook
    return .yield u

theorem hookTurn_eq_ok (hfi : hook.mode = "async" ∨ ¬ HookFails setup r c hook s) :
    hookTurn setup r c hook u s = .ok (.yield u) (ending (runHook setup r c hook s)) := by
  unfold hookTurn
  by_cases hb : hook.mode = "async"
  · rw [if_pos (beq_iff_eq.2 hb)]
    rfl
  · have holds : ¬ Fails (runHook setup r c hook) s :=
      fun hf => (hfi.resolve_left hb) (fails_runHook_iff.1 hf)
    obtain ⟨v, s', ran⟩ := exists_ok_of_not_fails holds
    rw [if_neg (mt beq_iff_eq.1 hb), ran]
    exact bind_of_ok ran

theorem fails_hookTurn_bind_iff {next : ForInStep PUnit → Handler PUnit} :
    Fails (hookTurn setup r c hook u >>= next) s ↔ hook.mode ≠ "async" ∧ HookFails setup r c hook s ∨
        Fails (next (.yield u)) (ending (runHook setup r c hook s)) := by
  by_cases hb : hook.mode ≠ "async" ∧ HookFails setup r c hook s
  · refine iff_of_true (fails_bind_iff.2 (.inl ?_)) (.inl hb)
    unfold hookTurn
    rw [if_neg (mt beq_iff_eq.1 hb.1)]
    exact fails_bind_iff.2 (.inl (fails_runHook_iff.2 hb.2))
  · have hf : hook.mode = "async" ∨ ¬ HookFails setup r c hook s := by
      rwa [not_and_or, not_not] at hb
    rw [or_iff_right hb, Fails, bind_of_ok (hookTurn_eq_ok hf), Fails]

theorem fails_forIn_hookTurn_iff {hooks : List Hook} :
    Fails (forIn hooks u (hookTurn setup r c)) s ↔ HooksBreak setup r c hooks s := by
  induction hooks generalizing s with
  | nil =>
    rw [forIn_nil, HooksBreak]
    exact iff_false_intro (not_fails_pure _ _)
  | cons hook rest ih =>
    rw [forIn_cons, HooksBreak, fails_hookTurn_bind_iff]
    exact or_congr Iff.rfl ih

theorem fails_runHooks_iff : Fails (runHooks setup r c) s ↔ HooksBreak setup r c (hooksOf setup c) s := by
  have ht : runHooks setup r c = (do
      let _ ← forIn (hooksOf setup c) ⟨⟩ (hookTurn setup r c)) := rfl
  rw [ht, fails_bind_iff_left fun _ _ _ => not_fails_pure _ _, fails_forIn_hookTurn_iff]

def logged (setup : Setup) (r : Request) (event : String) (id : Json) (c : Change) (s : State) :
    State :=
  ending (audit setup r [("action", .str event), ("model", .str c.model.name), ("row_id", id)] s)

theorem fails_announce_iff {event : String} {id : Json} : Fails (announce setup r event id c) s ↔
      HooksBreak setup r c (hooksOf setup c) (logged setup r event id c s) := by
  obtain ⟨u, s', ht⟩ := exists_ok_of_not_fails (not_fails_audit setup r
    [("action", .str event), ("model", .str c.model.name), ("row_id", id)] s)
  unfold announce logged
  rw [Fails, bind_of_ok ht, ht, ending_ok]
  exact fails_runHooks_iff

/-! ## Responses -/

def jsonResponse (status : Int) (v : Json) : Response where
  status
  headers := securityHeaders ++ bodyHeaders jsonKind v.encode
  body := v.encode

/-- A program succeeds and sends one response, and it is this one. -/
def AnswersWith (x : Handler Unit) (s : State) (response : Response) : Prop :=
  ∃ s', x s = .ok () s' ∧ s'.responses = s.responses ++ [response]

theorem answersWith_sendJson (v : Json) (code : Int) (s : State) :
    AnswersWith (sendJson v code) s (jsonResponse code v) := by
  have hf : ∀ h ∈ securityHeaders ++ bodyHeaders jsonKind v.encode, Fits (h.1 ++ h.2) :=
    forall_mem_append.2 ⟨fits_securityHeaders, fits_bodyHeaders (by decide +kernel)⟩
  refine ⟨{ s with responses := s.responses ++ [jsonResponse code v] }, ?_, rfl⟩
  unfold sendJson send
  rw [checkHeaders_eq_ok_iff.2 hf]
  rfl

/-- A response is all that a program sends, except under a condition; then it sends nothing. -/
def AnswersUnless (x : Handler Unit) (s : State) (response : Response) (P : Prop) : Prop :=
  (AnswersWith x s response ↔ ¬ P) ∧ (P → (ending (x s)).responses = s.responses)

theorem AnswersUnless.of_eq {x y : Handler Unit} {s' : State} {resp : Response} {P : Prop}
    (h : AnswersUnless y s' resp P) (hs : x s = y s')
    (hc : s'.responses = s.responses) : AnswersUnless x s resp P := by
  unfold AnswersUnless AnswersWith at h ⊢
  rwa [hs, ← hc]

theorem answersUnless_bind_sendJson {x : Handler Unit} (hq : Quiet x) (v : Json) (code : Int) :
    AnswersUnless (do x; sendJson v code) s (jsonResponse code v) (Fails x s) := by
  have hd : Definite (do x; sendJson v code) := definite_bind hq fun _ => definite_sendJson v code
  have hf : Fails (do x; sendJson v code) s ↔ Fails x s :=
    fails_bind_iff_left fun _ s' _ => not_fails_sendJson v code s'
  refine ⟨⟨?_, fun hfi => ?_⟩, fun h => hd.responses_eq (hf.2 h)⟩
  · rintro ⟨s', run, -⟩ h
    obtain ⟨e, s'', run'⟩ := hf.2 h
    cases run.symm.trans run'
  · obtain ⟨_, s', run⟩ := exists_ok_of_not_fails hfi
    obtain ⟨s'', hs, ha⟩ := answersWith_sendJson v code s'
    have hc : s'.responses = s.responses := hq.of_ok run
    exact ⟨s'', (bind_of_ok run).trans hs, by rw [ha, hc]⟩

/-! ## Altered rows -/

/-- A row that was altered over the network: the change that hooks see, how the audit log calls it,
and the response that is due. -/
structure Alteration where
  change : Change
  event : String
  id : Json
  status : Int := 200
  told : Json

namespace Alteration

def created (m : Model) (payload : Json) (row : Members) : Alteration where
  change := Door.api.created m payload row
  event := Door.api.createEvent
  id := (row.get? "id").getD .null
  status := 201
  told := rowJson m row

def updated (m : Model) (id : Int) (old : Option Members) (payload : Json)
    (row : Members) : Alteration where
  change := Door.api.updated m id old payload row
  event := Door.api.updateEvent
  id := .int id
  told := rowJson m row

def deleted (m : Model) (id : Int) (row : Members) : Alteration where
  change := Door.api.deleted m id row
  event := Door.api.deleteEvent
  id := .int id
  told := .obj [("ok", .bool true)]

def due (a : Alteration) : Response :=
  jsonResponse a.status a.told

def conclude (setup : Setup) (r : Request) (a : Alteration) : Handler Unit := do
  announce setup r a.event a.id a.change
  sendJson a.told a.status

/-- A hook fails that does not run beside the request. -/
def Breaks (setup : Setup) (r : Request) (a : Alteration) (s : State) : Prop :=
  HooksBreak setup r a.change (hooksOf setup a.change) (logged setup r a.event a.id a.change s)

theorem answersUnless_conclude (a : Alteration) :
    AnswersUnless (a.conclude setup r) s a.due (a.Breaks setup r s) := by
  unfold Breaks
  rw [← fails_announce_iff]
  exact answersUnless_bind_sendJson (quiet_announce _ _ _ _ _) a.told a.status

end Alteration

/-- A request alters a row over the network: it asks for it, and the store takes it. -/
inductive Alters (setup : Setup) (r : Request) (s : State) : Alteration → State → Prop
  | create {m : Model} {payload : Json} {row : Members} {s' : State}
      (plan : planOf setup r = .ok (.create .api m payload))
      (made : insertRow m payload (counted r s) = .ok row s') :
      Alters setup r s (.created m payload row) s'
  | update {m : Model} {id : Int} {payload : Json} {old : Option Members}
      {fields row : Members} {s₀ s' : State}
      (plan : planOf setup r = .ok (.change .api m id payload))
      (found : onStore (Store.get? m id) (counted r s) = .ok old s₀)
      (read : payloadFields m payload = .ok fields)
      (changed : onStore (Store.update m id fields) s₀ = .ok (some row) s') :
      Alters setup r s (.updated m id old payload row) s'
  | delete {m : Model} {id : Int} {row : Members} {s₀ s' : State}
      (plan : planOf setup r = .ok (.remove .api m id))
      (found : onStore (Store.get? m id) (counted r s) = .ok (some row) s₀)
      (removed : onStore (Store.delete m id) s₀ = .ok true s') :
      Alters setup r s (.deleted m id row) s'

theorem Alters.handle_eq {a : Alteration} {s' : State} (ha : isAllowed r s)
    (hal : Alters setup r s a s') :
    handle setup r s = a.conclude setup r s' ∧ s'.responses = s.responses := by
  rw [handle_eq_of_isAllowed setup ha]
  cases hal with
  | create hp hm =>
    have hc : s'.responses = (counted r s).responses := (quiet_insertRow _ _).of_ok hm
    rw [hp]
    exact ⟨bind_of_ok (caught_eq_ok_ok.2 hm), hc⟩
  | @update m id pl old fs row s₀ s' hp hf hre hch =>
    have hk : attempt (fun e => e) (payloadFields m pl) s₀ = .ok fs s₀ := by
      rw [hre]
      rfl
    have hc : s₀.responses = (counted r s).responses := (quiet_onStore _).of_ok hf
    rw [hp]
    refine ⟨?_, ((quiet_onStore _).of_ok hch).trans hc⟩
    exact (bind_of_ok hf).trans ((bind_of_ok hk).trans (bind_of_ok hch))
  | @delete m id row s₀ s' hp hf hr =>
    have hc : s₀.responses = (counted r s).responses := (quiet_onStore _).of_ok hf
    rw [hp]
    refine ⟨?_, ((quiet_onStore _).of_ok hr).trans hc⟩
    exact (bind_of_ok hf).trans (bind_of_ok hr)

/-- A list of things to do. A hook gives each new one a number that is none. -/
def numberedSpec (mode : String) : Members := [
  ("db", .obj [("path", .str ":memory:"), ("models", .arr [
    .obj [("name", .str "Todo"), ("fields", .obj [("title", .str "text"), ("n", .str "int")])]])]),
  ("api", .obj [
    ("crud", .arr [.str "Todo"]),
    ("actions", .arr [.obj [("name", .str "number"), ("kind", .str "value"),
      ("value", .obj [("data", .obj [("n", .str "many")])])]]),
    ("hooks", .arr [.obj [("model", .str "Todo"), ("event", .str "after_create"),
      ("action", .str "number"), ("mode", .str mode), ("writeback", .arr [.str "n"])]])])]

def numberedServer? (mode : String) : Option (Setup × State) :=
  match check (numberedSpec mode) with
  | .ok app => (start app [] {} "token" {}).toOption
  | .error _ => none

def addNumbered : Request where
  method := "POST"
  target := "/api/Todo"
  headers := [("Content-Type", "application/json"), ("Content-Length", "16")]
  body := Text.encode "\x7b\"title\": \"one\"\x7d"

def addsRow (setup : Setup) (r : Request) (s : State) : Bool :=
  match planOf setup r with
  | .ok (.create .api m payload) =>
    match insertRow m payload (counted r s) with
    | .ok _ _ => true
    | .error _ _ => false
  | _ => false

theorem exists_alters_of_addsRow (ha : addsRow setup r s) : ∃ a s', Alters setup r s a s' := by
  unfold addsRow at ha
  split at ha
  next hp =>
    split at ha
    next hm => exact ⟨_, _, .create hp hm⟩
    next => cases ha
  next => cases ha

end Appwright.Server
