import Appwright.Proofs.Server.Outcome
import Appwright.Proofs.Server.Plan
import Appwright.Proofs.Server.Start
import Appwright.Proofs.Text

/-!
# Nobody changes rows unasked

A server with a key and with credentials changes no row and calls no service for a request that
carries neither, unless the request calls an action that is open to all; and a form changes rows
only if it carries the server's token (`handle_guarded`).

The paths of rows are looked at before those of the administration. If the administration lies among
them, a request with the key changes rows below the administration's path without the token
(`admin_below_rows_needs_no_token`); so the second half leaves the paths of rows out.
-/

namespace Appwright

open Text List Option

namespace Text

theorem exists_append_of_startsWith {s head : String} (h : startsWith s head) :
    ∃ rest, s = head ++ rest := by
  obtain ⟨rest, hp⟩ := isPrefixOf_iff_prefix.1 h
  refine ⟨String.ofList rest, ?_⟩
  rw [← String.toList_inj, String.toList_append, String.toList_ofList, hp]

theorem indexOf?_singleton {c : Char} {word : List Char} (ha : c ∉ word) (rest : List Char) :
    indexOf? [c] (word ++ c :: rest) = some word.length := by
  induction word with
  | nil => simp [indexOf?]
  | cons d word ih =>
    obtain ⟨ne, ha⟩ := not_or.1 (mem_cons.not.1 ha)
    simp [indexOf?, ne, ih ha]

end Text

namespace Server

/-! ## What a request carries -/

def CarriesKey (key : String) (r : Request) : Prop :=
  r.header? "X-API-Key" = some key ∨ r.header? "Authorization" = some ("Bearer " ++ key)

def CarriesCredentials (c : Credentials) (r : Request) : Prop :=
  ∃ name password encoded bytes, c.user = some name ∧ c.password = some password ∧
    r.header? "Authorization" = some ("Basic " ++ encoded) ∧
    decodeBase64? encoded = some bytes ∧ decode bytes = .ok (name ++ ":" ++ password)

theorem eq_of_sameSecret {inp secret : String} (h : sameSecret inp secret = .ok true) : inp = secret := by
  unfold sameSecret at h
  dsimp only at h
  split at h
  · exact beq_iff_eq.1 (Except.ok.inj h)
  · cases h

theorem afterBlank_append {word rest : String} (hs : ' ' ∉ word.toList) :
    afterBlank (word ++ " " ++ rest) = rest := by
  have hc : (word ++ " " ++ rest).toList = word.toList ++ ' ' :: rest.toList := by simp
  unfold afterBlank cutText? cut?
  rw [hc, show " ".toList = [' '] from rfl, indexOf?_singleton hs]
  simp [drop_append]

variable {r : Request} {su : Setup} {key : String} {c : Credentials}

theorem header?_of_startsWith (scheme : String) (hs : ' ' ∉ scheme.toList)
    (h : startsWith ((r.header? "Authorization").getD "") (scheme ++ " ")) :
    r.header? "Authorization" =
      some (scheme ++ " " ++ afterBlank ((r.header? "Authorization").getD "")) := by
  obtain ⟨rest, hp⟩ := exists_append_of_startsWith h
  rw [hp, afterBlank_append hs]
  cases header : r.header? "Authorization" with
  | some text =>
    rw [header] at hp
    exact congrArg some hp
  | none =>
    rw [header] at hp
    have hb : ' ' ∈ ("" : String).toList := by
      rw [show ("" : String) = scheme ++ " " ++ rest from hp]
      simp
    exact absurd hb not_mem_nil

theorem carriesKey_of_hasKey (h : hasKey key r = .ok true) : CarriesKey key r := by
  have hb (h : (if startsWith ((r.header? "Authorization").getD "") "Bearer " then
      sameSecret (afterBlank ((r.header? "Authorization").getD "")) key else pure false) =
        .ok true) : CarriesKey key r := by
    split at h
    · rename_i hs
      have header := header?_of_startsWith "Bearer" (by decide) hs
      rw [eq_of_sameSecret h] at header
      exact .inr header
    · cases h
  unfold hasKey at h
  cases header : r.header? "X-API-Key" with
  | none =>
    rw [header] at h
    exact hb h
  | some inp =>
    rw [header] at h
    dsimp only at h
    split at h
    · exact hb h
    · cases hsa : sameSecret inp key with
      | error e => rw [hsa] at h; cases h
      | ok b =>
        rw [hsa] at h
        cases b with
        | false => exact hb h
        | true => exact .inl (header.trans (congrArg some (eq_of_sameSecret hsa)))

theorem exists_of_givenCredentials? {name word : String} (h : givenCredentials? r = some (name, word)) :
    ∃ encoded bs, r.header? "Authorization" = some ("Basic " ++ encoded) ∧
      decodeBase64? encoded = some bs ∧ decode bs = .ok (name ++ ":" ++ word) := by
  obtain ⟨authorization, header, h⟩ := bind_eq_some_iff.1 h
  split at h
  · rename_i hs
    obtain ⟨bs, hde, h⟩ := bind_eq_some_iff.1 h
    obtain ⟨text, hr, cut⟩ := bind_eq_some_iff.1 h
    have hw := header?_of_startsWith (r := r) "Basic" (by decide) (by rw [header]; exact hs)
    rw [header, getD_some] at hw
    refine ⟨afterBlank authorization, bs, header.trans hw, hde, ?_⟩
    cases hd : decode bs with
    | error e => rw [hd] at hr; cases hr
    | ok t =>
      rw [hd] at hr
      cases hr
      rw [eq_of_cutText? cut]
  · cases h

theorem carriesCredentials_of_hasCredentials (h : hasCredentials c r = .ok true) :
    CarriesCredentials c r := by
  unfold hasCredentials at h
  split at h
  · cases h
  · cases h
  · cases h
  · rename_i name word hg hnoU hn
    have hf {o : Option String} (hno : o.getD "" = "" → False) : o = some (o.getD "") := by
      cases o with
      | none => exact absurd rfl hno
      | some s => rfl
    obtain ⟨first, hs, h⟩ := of_bind_ok h
    split at h
    · rename_i hi
      rw [hi] at hs
      obtain ⟨encoded, bs, header, hd, hr⟩ := exists_of_givenCredentials? hg
      rw [eq_of_sameSecret hs, eq_of_sameSecret h] at hr
      exact ⟨_, _, encoded, bs, hf hnoU, hf hn, header, hd, hr⟩
    · cases h

/-! ## What gates let pass -/

theorem eq_true_of_gate {check : Except Error Bool} {why : Refusal} (h : gate check why = .ok ()) :
    check = .ok true := by
  unfold gate at h
  split at h
  · rfl
  · cases h
  · cases h

theorem carriesKey_of_keyGate (hkey : su.apiKey = some key)
    (hn : key ≠ "") (h : keyGate su r = .ok ()) : CarriesKey key r := by
  unfold keyGate at h
  rw [hkey] at h
  split at h
  · rename_i none
    cases none
  · rename_i he
    exact absurd (some.inj he) hn
  · rename_i hs
    cases hs
    exact carriesKey_of_hasKey (eq_true_of_gate h)

theorem carriesCredentials_of_adminGate (hc : credentials su = some c)
    (h : adminGate su r = .ok ()) : CarriesCredentials c r := by
  unfold adminGate at h
  rw [hc] at h
  exact carriesCredentials_of_hasCredentials (eq_true_of_gate h)

theorem token_of_tokenGate {pl : Json} (h : tokenGate su pl = .ok ()) :
    ∃ ms v, pl = .obj ms ∧ Entries.get? "csrf_token" ms = some v ∧ v.display = su.token := by
  cases pl with
  | obj ms =>
    unfold tokenGate at h
    dsimp only at h
    split at h
    · cases h
    · rename_i hg
      cases hf : Entries.get? "csrf_token" ms with
      | none =>
        rw [hf] at hg
        exact absurd rfl hg
      | some v =>
        rw [hf] at h
        exact ⟨ms, v, rfl, hf, eq_of_sameSecret (eq_true_of_gate h)⟩
  | null | bool _ | int _ | float _ | str _ | arr _ => cases h

/-! ## Plans of requests that carry nothing -/

def calledAction? (setup : Setup) (r : Request) : Option Spec.Action :=
  match Url.parse r.target with
  | .error _ => none
  | .ok url =>
    match r.method with
    | "GET" =>
      if url.path == "/healthz" || startsWith url.path "/static/" then none
      else routeOf? setup "GET" url.path
    | "POST" => routeOf? setup "POST" url.path
    | "PUT" => routeOf? setup "PUT" url.path
    | "PATCH" => routeOf? setup "PUT" url.path
    | "DELETE" => routeOf? setup "DELETE" url.path
    | _ => none

def Task.isPublic : Task → Bool
  | health | file _ | page _ => true
  | _ => false

def Task.isCall : Task → Bool
  | call .. => true
  | _ => false

/-- How a request comes to a task: everybody may ask for it, the request passes a gate, or it calls
an action that lets it pass. -/
inductive Passes (setup : Setup) (r : Request) : Task → Prop
  | free {task : Task} (shown : task.isPublic = true) : Passes setup r task
  | key {task : Task} (passed : keyGate setup r = .ok ()) (other : task.isCall = false) :
    Passes setup r task
  | admin {task : Task} (passed : adminGate setup r = .ok ()) (other : task.isCall = false) :
    Passes setup r task
  | call {a : Spec.Action} {path : String} {payload : Json} {params : Params}
    (called : calledAction? setup r = some a) (passed : callerGate setup r a = .ok ()) :
    Passes setup r (.call a path payload params)

section Plans

variable {su : Setup} {r : Request} {task : Task} {path query : String} {url : Url}
  {a : Spec.Action}

theorem passes_of_planCall (hc : calledAction? su r = some a)
    (h : planCall su r path query a = .ok task) : Passes su r task := by
  obtain ⟨_, hp, h⟩ := of_bind_ok h
  obtain ⟨_, -, ⟨⟩⟩ := of_bind_ok h
  exact .call hc hp

theorem passes_of_planRows (h : planRows su r path query = .ok task) : Passes su r task := by
  obtain ⟨_, hp, h⟩ := of_bind_ok h
  obtain ⟨⟨m, id⟩, -, h⟩ := of_bind_ok h
  cases id <;> cases h <;> exact .key hp rfl

theorem passes_of_planCreate (h : planCreate su r path = .ok task) : Passes su r task := by
  obtain ⟨_, hp, h⟩ := of_bind_ok h
  obtain ⟨⟨m, _ | id⟩, -, h⟩ := of_bind_ok h
  · obtain ⟨_, -, ⟨⟩⟩ := of_bind_ok h
    exact .key hp rfl
  · cases h

theorem passes_of_planChange (h : planChange su r path = .ok task) : Passes su r task := by
  obtain ⟨_, hp, h⟩ := of_bind_ok h
  obtain ⟨⟨m, _ | id⟩, -, h⟩ := of_bind_ok h
  · cases h
  · obtain ⟨_, -, ⟨⟩⟩ := of_bind_ok h
    exact .key hp rfl

theorem passes_of_planRemove (h : planRemove su r path = .ok task) : Passes su r task := by
  obtain ⟨_, hp, h⟩ := of_bind_ok h
  obtain ⟨⟨m, _ | id⟩, -, h⟩ := of_bind_ok h
  · cases h
  · cases h
    exact .key hp rfl

theorem passes_of_planAdmin (h : planAdmin su r path query = .ok task) : Passes su r task := by
  obtain ⟨_, hp, h⟩ := of_bind_ok h
  dsimp only at h
  split at h
  · cases h
    exact .admin hp rfl
  split at h
  · cases h
  split at h <;> cases h <;> exact .admin hp rfl

theorem isCall_of_planForm {m : Spec.Model} {pl : Json} {rest : List String}
    (h : planForm m pl rest = .ok task) : task.isCall = false := by
  unfold planForm at h
  split at h
  · cases h
    rfl
  · split at h
    · split at h
      · cases h
      · rw [← Except.ok.inj h]
        split <;> rfl
    · cases h
  · cases h

theorem exists_of_planAdminForm (h : planAdminForm su r path = .ok task) :
    adminGate su r = .ok () ∧ ∃ m pl rest, payloadOf su r = .ok pl ∧
      tokenGate su pl = .ok () ∧ planForm m (withoutToken pl) rest = .ok task := by
  obtain ⟨_, hp, h⟩ := of_bind_ok h
  split at h
  · cases h
  split at h
  · cases h
  · obtain ⟨pl, hr, h⟩ := of_bind_ok h
    obtain ⟨_, ht, h⟩ := of_bind_ok h
    exact ⟨hp, _, pl, _, hr, ht, h⟩

theorem passes_of_planGet (hp : Url.parse r.target = .ok url) (hv : r.method = "GET")
    (h : planGet su r url = .ok task) : Passes su r task := by
  unfold planGet at h
  split at h
  · cases h
    exact .free rfl
  split at h
  · cases h
    exact .free rfl
  split at h
  next ha hn _ a hr =>
    exact passes_of_planCall (by simp [calledAction?, hp, hv, ha, hn, hr]) h
  split at h
  · obtain ⟨_, hpa, ⟨⟩⟩ := of_bind_ok h
    exact .key hpa rfl
  split at h
  · exact passes_of_planRows h
  split at h
  · exact passes_of_planAdmin h
  split at h <;> cases h
  exact .free rfl

theorem passes_of_planPost (hp : Url.parse r.target = .ok url) (hv : r.method = "POST")
    (h : planPost su r url = .ok task) : Passes su r task := by
  unfold planPost at h
  split at h
  next a hr => exact passes_of_planCall (by simp [calledAction?, hp, hv, hr]) h
  split at h
  · exact passes_of_planCreate h
  split at h
  · obtain ⟨hpa, _, _, _, -, -, h⟩ := exists_of_planAdminForm h
    exact .admin hpa (isCall_of_planForm h)
  · cases h

theorem passes_of_planPut (hp : Url.parse r.target = .ok url)
    (hv : r.method = "PUT" ∨ r.method = "PATCH") (h : planPut su r url = .ok task) : Passes su r task := by
  unfold planPut at h
  split at h
  next a hr =>
    refine passes_of_planCall ?_ h
    rcases hv with hv | hv <;> simp [calledAction?, hp, hv, hr]
  split at h
  · exact passes_of_planChange h
  · cases h

theorem passes_of_planDelete (hp : Url.parse r.target = .ok url) (hv : r.method = "DELETE")
    (h : planDelete su r url = .ok task) : Passes su r task := by
  unfold planDelete at h
  split at h
  next a hr => exact passes_of_planCall (by simp [calledAction?, hp, hv, hr]) h
  split at h
  · exact passes_of_planRemove h
  · cases h

theorem passes_of_planOf (h : planOf su r = .ok task) : Passes su r task := by
  unfold planOf at h
  split at h
  · cases h
  next url hp =>
    split at h
    next hv => exact passes_of_planGet hp hv h
    next hv => exact passes_of_planPost hp hv h
    next hv => exact passes_of_planPut hp (.inl hv) h
    next hv => exact passes_of_planPut hp (.inr hv) h
    next hv => exact passes_of_planDelete hp hv h
    next => cases h

theorem mem_of_calledAction? (h : calledAction? su r = some a) : a ∈ su.app.actions := by
  have hr {verb path : String} (hro : routeOf? su verb path = some a) : a ∈ su.app.actions :=
    mem_reverse.1 (mem_of_find?_eq_some hro)
  unfold calledAction? at h
  split at h
  · cases h
  split at h
  · split at h
    · cases h
    · exact hr h
  all_goals first | exact hr h | cases h

end Plans

/-! ## What is done for everybody -/

/-- The rows, and the calls of services that were made. -/
def State.effects (s : State) : Store × List Outbound.Sent :=
  (s.store, s.session.sent)

theorem stays_effects_send (code : Int) (hs : Entries String) (body : String) :
    Keeps (Stays State.effects) (send code hs body) :=
  (keeps_attempt _ _).bind fun _ => keeps_modify fun _ => rfl

theorem stays_effects_finish (stop : Stop) : Keeps (Stays State.effects) stop.finish := by
  cases stop with
  | refused why => cases why <;> exact stays_effects_send _ _ _
  | dropped => exact keeps_pure _
  | broken e => exact keeps_throw _

theorem stays_effects_checkRate (r : Request) : Keeps (Stays State.effects) (checkRate r) := by
  intro s
  rw [checkRate_eq]
  split
  · rfl
  · have ht : Keeps (Stays State.effects) (do
        sendError 429 "Rate limit exceeded"
        return false : Handler Bool) :=
      Keeps.bind (stays_effects_send _ _ _) fun _ => keeps_pure _
    exact ht (counted r s)

theorem stays_effects_showPage (setup : Setup) (path : String) :
    Keeps (Stays State.effects) (showPage setup path) := by
  unfold showPage
  cases (pageAt? setup path).or setup.app.pages.head? with
  | none => exact stays_effects_send _ _ _
  | some page =>
    dsimp only
    cases setup.models.get? page.model with
    | none => exact keeps_throw _
    | some m =>
      refine (Keeps.of_still (still_onStore (Store.still_list _ _ _ _ _))).bind fun rows => ?_
      refine (Keeps.of_still (still_choicesOf _ _)).bind fun cs => ?_
      exact (keeps_attempt _ _).bind fun html => stays_effects_send _ _ _

theorem stays_effects_perform {setup : Setup} {r : Request} {task : Task}
    (h : task.isPublic) : Keeps (Stays State.effects) (perform setup r task) := by
  cases task with
  | health => exact stays_effects_send _ _ _
  | file path => exact Keeps.ite (fun _ => stays_effects_send _ _ _) fun _ => stays_effects_send _ _ _
  | page path => exact stays_effects_showPage setup path
  | _ => cases h

/-- A server with a key and with credentials does nothing to its rows and calls no service for a
request that carries neither, unless the request calls an open action. For a `POST` that calls no
action and is not for a path of rows, it does so only if the payload carries the token. -/
theorem handle_guarded {setup : Setup} (built : Built setup) {key : String}
    (hkey : setup.apiKey = some key) (nonempty : key ≠ "") {c : Credentials}
    (hc : credentials setup = some c) (r : Request) (s : State) :
    (¬ CarriesKey key r → ¬ CarriesCredentials c r →
      (∀ a, calledAction? setup r = some a → a.auth ≠ "none") →
      (ending (handle setup r s)).effects = s.effects) ∧
    (∀ url, r.method = "POST" → Url.parse r.target = .ok url →
      routeOf? setup "POST" url.path = none → isApiPath url.path = false →
      (ending (handle setup r s)).effects = s.effects ∨
        ∃ members v, readPayload setup r = pure (some (.obj members)) ∧
          Entries.get? "csrf_token" members = some v ∧ v.display = setup.token) := by
  obtain ⟨spec, accepted⟩ := built.exists_accepted
  refine ⟨fun noKey noCredentials closed => ?_, fun url post parsed noRoute notRows => ?_⟩
  · refine keeps_handle (stays_effects_checkRate r) stays_effects_finish (fun task plan => ?_) s
    cases passes_of_planOf plan with
    | free shown => exact stays_effects_perform shown
    | key passed => exact absurd (carriesKey_of_keyGate hkey nonempty passed) noKey
    | admin passed => exact absurd (carriesCredentials_of_adminGate hc passed) noCredentials
    | call called passed =>
      have known := Spec.auth_mem_accessLevels accepted (mem_of_calledAction? called)
      unfold callerGate at passed
      split at passed
      · exact absurd (carriesKey_of_keyGate hkey nonempty passed) noKey
      · exact absurd (carriesCredentials_of_adminGate hc passed) noCredentials
      next notApi notAdmin =>
        simp only [Spec.accessLevels, List.mem_cons, List.not_mem_nil, or_false] at known
        rcases known with admin | api | none
        · exact absurd admin notAdmin
        · exact absurd api notApi
        · exact absurd none (closed _ called)
  · cases plan : planOf setup r with
    | error stop =>
      refine .inl (keeps_handle (stays_effects_checkRate r) stays_effects_finish ?_ s)
      rintro task made
      rw [plan] at made
      cases made
    | ok task =>
      right
      unfold planOf at plan
      rw [parsed] at plan
      simp only [post, planPost, noRoute, notRows, Bool.false_eq_true, if_false] at plan
      split at plan
      · obtain ⟨-, _, payload, _, read, passed, -⟩ := exists_of_planAdminForm plan
        obtain ⟨members, v, rfl, found, same⟩ := token_of_tokenGate passed
        refine ⟨members, v, ?_, found, same⟩
        rw [readPayload_eq_settled, read]
        rfl
      · cases plan

/-! ## A server at work -/

def addOne (key : String) : Request where
  method := "POST"
  target := "/api/Todo"
  headers := [("X-API-Key", key), ("Content-Type", "application/x-www-form-urlencoded"),
    ("Content-Length", "9")]
  body := encode "title=one"

/-- Nothing is added for a client with a wrong key. -/
theorem handle_addOne_wrong_key : ∃ setup, Built setup ∧ setup.apiKey = some "k" ∧ "k" ≠ "" ∧
    credentials setup = some ⟨some "root", some "secret"⟩ ∧
    ∀ s, (ending (handle setup (addOne "x") s)).effects = s.effects := by
  have facts : (todoServer? "/admin").map (fun p => (p.1.apiKey, credentials p.1,
      (calledAction? p.1 (addOne "x")).isSome)) =
        some (some "k", some ⟨some "root", some "secret"⟩, false) := by
    decide +kernel
  have noKey : (addOne "x").header? "X-API-Key" ≠ some "k" := by decide +kernel
  have noAuthorization : (addOne "x").header? "Authorization" = none := by decide +kernel
  obtain ⟨⟨setup, first⟩, server, held⟩ := Option.map_eq_some_iff.mp facts
  simp only [Prod.mk.injEq] at held
  obtain ⟨hkey, hc, noAction⟩ := held
  have built := built_of_todoServer? server
  refine ⟨setup, built, hkey, by decide, hc, fun s => ?_⟩
  refine (handle_guarded built hkey (by decide) hc (addOne "x") s).1 ?_ ?_ ?_
  · rintro (header | bearer)
    · exact noKey header
    · rw [noAuthorization] at bearer
      cases bearer
  · rintro ⟨_, _, _, _, -, -, header, -⟩
    rw [noAuthorization] at header
    cases header
  · intro a called
    rw [called] at noAction
    cases noAction

/-- With the administration at the path of the rows, a row is added below the administration's path
although the form has no token. -/
theorem admin_below_rows_needs_no_token :
    (todoServer? "/api").map (fun p =>
      (isAdminPath p.1 "/api/Todo", (routeOf? p.1 "POST" "/api/Todo").isSome,
        ((payloadOf p.1 (addOne "k")).bind (tokenGate p.1)).isOk,
        p.2.store.tables.map (·.rows.length),
        (ending (handle p.1 (addOne "k") p.2)).store.tables.map (·.rows.length))) =
      some (true, false, false, [0], [1]) := by
  decide +kernel

end Server

end Appwright
