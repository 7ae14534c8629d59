import Appwright.Proofs.Store.Reading
import Appwright.Server.Admin

/-!
# How a handler ends

A handler succeeds or fails, and on the way it sends responses. Nearly all of them are *definite*: if
they succeed they have sent exactly one response, and if they fail they have sent none
(`Definite`). Then a request is answered once just if its handler does not fail
(`Definite.answersOnce_iff`). Sending itself fails only for a header that does not fit, so errors and
JSON can always be sent.
-/

namespace Appwright.Server

open Store

/-! ## Reading rows

Looking up, listing and counting rows, following references and collecting choices leave the whole
state as it is, whether they succeed or fail.
-/

variable {α : Type} {s s' : State} {m : Spec.Model} {id : Int}

/-! ## Reading changes nothing -/

variable {op : Action α} (su : Setup)

theorem still_onStore (hs : Still op) : Still (onStore op) := by
  intro s
  have hsa : ending (op.run s.store) = s.store := hs s.store
  unfold onStore
  cases run : op.run s.store with
  | ok | error =>
    rw [run] at hsa
    cases hsa
    rfl

theorem still_queryRows (m : Spec.Model) (ask : Ask) : Still (queryRows m ask) :=
  (keeps_attempt _ _).bind fun _ => still_onStore (still_list _ _ _ _ _)

theorem still_countRows (m : Spec.Model) (ask : Ask) : Still (countRows m ask) :=
  (keeps_attempt _ _).bind fun _ => still_onStore (still_count _ _)

theorem still_expandField (row : Json.Members) (fd tgt : String) : Still (expandField su row fd tgt) := by
  unfold expandField
  split
  · exact keeps_pure _
  · exact keeps_pure _
  · refine (keeps_attempt _ _).bind fun n => (still_onStore (still_get? _ n)).bind fun found => ?_
    cases found with
    | some | none => exact keeps_pure _

theorem still_expandRow (fields : List (String × String)) (row : Json.Members) :
    Still (expandRow su fields row) := by
  exact Keeps.foldlM (fun row f => still_expandField su row f.1 f.2) fields row

theorem still_choicesOf : ∀ fields : List (String × Spec.FieldType), Still (choicesOf su fields)
  | [] => keeps_pure _
  | (fd, type) :: rest => by
    unfold choicesOf
    cases type.target? with
    | none => exact still_choicesOf rest
    | some tgt =>
      dsimp only
      split
      · refine (keeps_pure _).bind fun _ => ?_
        exact (still_choicesOf rest).yields
      · refine (still_onStore (still_list _ _ _ _ _)).bind fun _ => (keeps_pure _).bind fun _ => ?_
        exact (still_choicesOf rest).yields

/-! ## When reading fails -/

theorem fails_onStore_iff : Fails (onStore op) s ↔ Fails op s.store := by
  unfold Fails onStore
  cases run : op.run s.store with
  | ok | error => simp [show op s.store = _ from run]

theorem exists_ok_of_onStore {v : α} (h : onStore op s = .ok v s') : ∃ store, op s.store = .ok v store := by
  unfold onStore at h
  cases run : op.run s.store with
  | ok w store =>
    rw [run] at h
    cases h
    exact ⟨store, run⟩
  | error e store => rw [run] at h; cases h

theorem fails_get?_bind_iff {β : Type} {f : Option Json.Members → Handler β} :
    Fails (onStore (get? m id) >>= f) s ↔
      Unsearchable m id s.store ∨ Fails (f (rowAt? m id s.store)) s := by
  rw [← fails_get?_iff, ← fails_onStore_iff]
  refine fails_bind_iff_or fun found s' run => ?_
  cases (still_onStore (still_get? m id)).eq_of_ok run
  obtain ⟨store, hl⟩ := exists_ok_of_onStore run
  rw [get?_eq_ok hl]

theorem not_fails_countRows {ask : Ask} {rows : List Json.Members}
    (h : queryRows m ask s = .ok rows s') : ¬ Fails (countRows m ask) s := by
  obtain ⟨cs, s'', hc, ran⟩ := bind_eq_ok h
  obtain ⟨hm, rfl⟩ := eq_ok_of_attempt hc
  obtain ⟨store, hl⟩ := exists_ok_of_onStore ran
  unfold countRows
  rw [hm]
  exact fun hf => not_fails_count hl (fails_onStore_iff.1 hf)

theorem fails_list_all_iff {descending : Bool} {lim off : Int}
    (hlimit : Value.fits lim) (hh : Value.fits off) :
    Fails (onStore (list m [] { descending } lim off)) s ↔ s.store.table? m.name = none :=
  fails_onStore_iff.trans (fails_list_nil_iff hlimit hh)

def Dangles (setup : Setup) (fields : List (String × Spec.FieldType)) (s : State) : Prop :=
  ∃ f ∈ fields, ∃ m, (f.2.target?.bind fun target => setup.models.get? target) = some m ∧
    s.store.table? m.name = none

theorem fails_choicesOf_iff {setup : Setup} {fields : List (String × Spec.FieldType)} :
    Fails (choicesOf setup fields) s ↔ Dangles setup fields s := by
  unfold Dangles
  induction fields with
  | nil => simp [choicesOf, not_fails_pure]
  | cons f rest ih =>
    obtain ⟨fd, type⟩ := f
    simp only [List.mem_cons, exists_eq_or_imp]
    unfold choicesOf
    cases type.target? with
    | none => simpa using ih
    | some tgt =>
      have hl (cs : List View.Choice) : Fails (do
          return (fd, cs) :: (← choicesOf setup rest)) s ↔ _ :=
        (fails_bind_iff_left fun _ _ _ => not_fails_pure _ _).trans ih
      simp only [Option.bind_some]
      cases setup.models.get? tgt with
      | none =>
        simp only [reduceCtorEq, false_and, exists_false, false_or]
        exact hl []
      | some m =>
        simp only [Option.some.injEq, exists_eq_left']
        refine (fails_bind_iff_or fun rows s' run => ?_).trans
          (or_congr (fails_list_all_iff rfl rfl) Iff.rfl)
        cases (still_onStore (still_list _ _ _ _ _)).eq_of_ok run
        exact hl _

end Appwright.Server

namespace Appwright.Server

/-! ## Responses -/

variable {α : Type}

/-! ## Sending -/

def Fits (text : String) : Prop :=
  ∀ c ∈ text.toList, c.toNat < 256

-- Found by search, the instance would run over all characters.
instance (text : String) : Decidable (Fits text) :=
  List.decidableBAll _ text.toList

theorem fits_append {a b : String} : Fits (a ++ b) ↔ Fits a ∧ Fits b := by
  unfold Fits
  rw [String.toList_append, List.forall_mem_append]

theorem fits_ofNat (n : Nat) : Fits (Text.ofNat n) := by
  intro c hc
  rw [Text.ofNat, String.toList_ofList] at hc
  have hd := Nat.isDigit_of_mem_toDigits (by decide) (by decide) hc
  simp only [Char.isDigit, Bool.and_eq_true, decide_eq_true_eq] at hd
  have top : c.toNat ≤ 57 := UInt32.le_iff_toNat_le.1 hd.2
  omega

theorem fits_ofInt (n : Int) : Fits (Text.ofInt n) := by
  cases n with
  | ofNat n => exact fits_ofNat n
  | negSucc n => exact fits_append.2 ⟨by decide, fits_ofNat (n + 1)⟩

variable {headers : Entries String} {x : Handler α} (su : Setup) (r : Request)
    (fs : Json.Members) (c : Change) (hook : Spec.Hook)

theorem checkHeaders_eq_ok_iff : checkHeaders headers = .ok () ↔ ∀ h ∈ headers, Fits (h.1 ++ h.2) := by
  unfold checkHeaders Fits
  split
  · rename_i h hf
    have hm := List.mem_of_find?_eq_some hf
    have hw := List.find?_some hf
    simp only [List.any_eq_true, decide_eq_true_eq] at hw
    obtain ⟨c, hc, big⟩ := hw
    constructor
    · intro ha
      cases ha
    · intro hfi
      have := hfi h hm c hc
      omega
  · rename_i none
    refine ⟨fun _ h hm c hc => ?_, fun _ => rfl⟩
    have hn := List.find?_eq_none.1 none h hm
    simp only [List.any_eq_true, decide_eq_true_eq, not_exists, not_and, Nat.not_le] at hn
    exact hn c hc

variable {s : State} (code : Int)

theorem fails_send_iff {status : Int} {body : String} :
    Fails (send status headers body) s ↔ ¬ ∀ h ∈ headers, Fits (h.1 ++ h.2) := by
  rw [← checkHeaders_eq_ok_iff]
  unfold send
  rw [fails_bind_iff, fails_attempt_iff]
  cases checkHeaders headers with
  | ok u =>
    refine ⟨?_, fun h => absurd rfl h⟩
    rintro (⟨e, h⟩ | ⟨_, _, -, _, _, h⟩) <;> cases h
  | error e => exact ⟨fun _ h => (by cases h), fun _ => .inl ⟨e, rfl⟩⟩

theorem fits_securityHeaders : ∀ h ∈ securityHeaders, Fits (h.1 ++ h.2) := by
  decide +kernel

theorem fits_bodyHeaders {kind body : String} (hf : Fits ("Content-Type" ++ kind)) :
    ∀ h ∈ bodyHeaders kind body, Fits (h.1 ++ h.2) := by
  have hn : Fits "Content-Length" := by decide +kernel
  have hl := fits_append.2 ⟨hn, fits_ofNat (Text.encode body).length⟩
  exact List.forall_mem_cons.2 ⟨hf, List.forall_mem_singleton.2 hl⟩

theorem not_fails_sendJson (v : Json) (status : Int) (s : State) : ¬ Fails (sendJson v status) s := by
  unfold sendJson
  rw [fails_send_iff, not_not, List.forall_mem_append]
  exact ⟨fits_securityHeaders, fits_bodyHeaders (by decide +kernel)⟩

variable (msg : String) (act : Spec.Action)

theorem not_fails_sendError (s : State) : ¬ Fails (sendError code msg) s := not_fails_sendJson _ _ _

theorem fails_sendPage_iff {setup : Setup} {page : String} :
    Fails (sendPage setup page) s ↔ ¬ Fits setup.policy := by
  unfold sendPage
  rw [fails_send_iff, not_iff_not, List.forall_mem_append, List.forall_mem_append]
  have hk : Fits ("Content-Type" ++ htmlKind) := by decide +kernel
  have hn : Fits "Content-Security-Policy" := by decide +kernel
  have hc : Fits ("Cache-Control" ++ "no-store") := by decide +kernel
  refine ⟨fun all => ?_, fun hf => ⟨⟨fits_securityHeaders, ?_⟩, fits_bodyHeaders hk⟩⟩
  · exact (fits_append.1 (all.1.2 _ List.mem_cons_self)).2
  · simp only [List.forall_mem_cons, List.not_mem_nil, false_implies, implies_true, and_true]
    exact ⟨fits_append.2 ⟨hn, hf⟩, hc⟩

theorem fails_redirect_iff {loc : String} : Fails (redirect loc) s ↔ ¬ Fits loc := by
  unfold redirect
  rw [fails_send_iff, not_iff_not, List.forall_mem_append]
  have hn : Fits "Location" := by decide +kernel
  refine ⟨fun all => ?_, fun hf => ⟨fits_securityHeaders, ?_⟩⟩
  · exact (fits_append.1 (all.2 _ List.mem_cons_self)).2
  · simp only [List.forall_mem_cons, List.not_mem_nil, false_implies, implies_true, and_true]
    exact fits_append.2 ⟨hn, hf⟩

/-! ## Definite handlers -/

abbrev Quiet (x : Handler α) : Prop :=
  Keeps (Stays State.responses) x

/-- A handler that has sent exactly one response if it succeeds, and none if it fails. -/
structure Definite (x : Handler Unit) : Prop where
  sends : ∀ {s s'}, x s = .ok () s' → ∃ response, s'.responses = s.responses ++ [response]
  fails : ∀ {s e s'}, x s = .error e s' → s'.responses = s.responses

def AnswersOnce (x : Handler Unit) (s : State) : Prop :=
  ∃ s' response, x s = .ok () s' ∧ s'.responses = s.responses ++ [response]

theorem Definite.answersOnce_iff {x : Handler Unit} (hd : Definite x) : AnswersOnce x s ↔ ¬ Fails x s := by
  constructor
  · rintro ⟨s', resp, run, -⟩ ⟨e, s'', run'⟩
    cases run.symm.trans run'
  · intro h
    obtain ⟨_, s', run⟩ := exists_ok_of_not_fails h
    obtain ⟨resp, hs⟩ := hd.sends run
    exact ⟨s', resp, run, hs⟩

theorem Definite.responses_eq {x : Handler Unit} (hd : Definite x) (hf : Fails x s) :
    (ending (x s)).responses = s.responses := by
  obtain ⟨e, s', run⟩ := hf
  rw [run]
  exact hd.fails run

theorem definite_send (headers : Entries String) (body : String) : Definite (send code headers body) := by
  unfold send
  cases checkHeaders headers with
  | ok u => exact ⟨fun run => (by cases run; exact ⟨_, rfl⟩), fun run => (by cases run)⟩
  | error e => exact ⟨fun run => (by cases run), fun run => (by cases run; rfl)⟩

theorem definite_sendJson (v : Json) (status : Int) : Definite (sendJson v status) := definite_send _ _ _

theorem definite_sendError : Definite (sendError code msg) := definite_sendJson _ _

theorem definite_sendPage (page : String) : Definite (sendPage su page) := definite_send _ _ _

theorem definite_redirect (loc : String) : Definite (redirect loc) := definite_send _ _ _

theorem definite_bind {f : α → Handler Unit} (hq : Quiet x) (hd : ∀ a, Definite (f a)) :
    Definite (x >>= f) := by
  have hsa {s s' : State} {a : α} (run : x s = .ok a s') : s'.responses = s.responses := by
    have hk := hq s
    rw [run] at hk
    exact hk
  constructor
  · intro s s' run
    obtain ⟨a, s'', first, hs⟩ := bind_eq_ok run
    rw [← hsa first]
    exact (hd a).sends hs
  · intro s e s' run
    rcases bind_eq_error run with first | ⟨a, s'', first, hs⟩
    · have hk := hq s
      rw [first] at hk
      exact hk
    · rw [← hsa first]
      exact (hd a).fails hs

theorem definite_throw (e : Error) : Definite (throw e) :=
  ⟨fun run => (by cases run), fun run => (by cases run; rfl)⟩

theorem definite_ite {p : Prop} [Decidable p] {x y : Handler Unit} (hx : Definite x)
    (hy : Definite y) : Definite (if p then x else y) := by
  split
  · exact hx
  · exact hy

/-! ## What never fails -/

theorem not_fails_audit (s : State) : ¬ Fails (audit su r fs) s := by
  unfold audit
  split
  · rintro ⟨e, s', h⟩
    cases h
  · exact not_fails_pure _ _

theorem not_fails_runAction (c : Action.Context) (s : State) : ¬ Fails (runAction act c) s := by
  rintro ⟨e, s', h⟩
  unfold runAction at h
  split at h <;> cases h

theorem caught_eq_ok_ok {a : α} {s s' : State} : caught x s = .ok (.ok a) s' ↔ x s = .ok a s' := by
  unfold caught
  cases x s <;> simp [outcome]

/-! ## What sends nothing -/

theorem quiet_onStore (op : Store.Action α) : Quiet (onStore op) := by
  intro s
  unfold onStore
  cases op.run s.store with
  | ok | error => rfl

theorem quiet_runAction (c : Action.Context) : Quiet (runAction act c) := by
  intro s
  unfold runAction
  split <;> rfl

theorem quiet_audit : Quiet (audit su r fs) :=
  Keeps.ite (fun _ => keeps_modify fun _ => rfl) fun _ => keeps_pure _

theorem quiet_hookHolds : Quiet (hookHolds su r c hook) := by
  refine Keeps.ite (fun _ => keeps_pure _) fun _ => ?_
  split
  · exact keeps_pure _
  · exact (quiet_audit _ _ _).yields
  · refine Keeps.ite (fun _ => (keeps_throw _).bind fun _ => ?_) fun _ => ?_
    all_goals exact (quiet_audit _ _ _).yields

theorem quiet_runHookAction : Quiet (runHookAction su r c hook) := by
  unfold runHookAction
  split
  · exact quiet_audit _ _ _
  · refine (quiet_runAction _ _).bind fun out => ?_
    cases out with
    | error e => exact quiet_audit _ _ _
    | ok res =>
      refine (quiet_audit _ _ _).bind fun _ => ?_
      split
      · exact keeps_pure _
      · refine Keeps.ite (fun _ => ?_) fun _ => keeps_pure _
        exact (quiet_onStore _).bind fun _ => quiet_audit _ _ _

theorem quiet_runHook : Quiet (runHook su r c hook) := by
  refine Keeps.ite (fun _ => quiet_audit _ _ _) fun _ => ?_
  refine (quiet_hookHolds su r c hook).bind fun holds => ?_
  exact Keeps.ite (fun _ => quiet_runHookAction su r c hook) fun _ => keeps_pure _

theorem quiet_runHooks : Quiet (runHooks su r c) := by
  refine (Keeps.forIn (fun hook _ => ?_) _ _).yields
  refine Keeps.ite (fun _ => ?_) fun _ => ?_
  · exact (quiet_runHook su r c hook).caught.yields
  · exact (quiet_runHook su r c hook).yields

theorem quiet_announce (event : String) (id : Json) (c : Change) : Quiet (announce su r event id c) :=
  (quiet_audit _ _ _).bind fun _ => quiet_runHooks su r c

theorem quiet_insertRow (m : Spec.Model) (pl : Json) : Quiet (insertRow m pl) :=
  (keeps_attempt _ _).bind fun _ => quiet_onStore _

end Appwright.Server
