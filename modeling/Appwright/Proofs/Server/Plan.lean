import Appwright.Proofs.Run
import Appwright.Server.Handle

/-!
# What a request asks for

Before the server does anything for a request it looks at the request alone: at its path, its key or
credentials, its payload and the token in it. Nothing of that depends on the state. `planOf` is the
outcome, a task or a reason to stop, and `perform` does a task. Answering a request is the one after
the other (`handle_eq_perform_planOf`), so a statement about requests splits into one about plans,
which are values, and one about tasks.
-/

namespace Appwright.Server

open Spec Decimal

/-! ## Stopping -/

/-- Why a request is turned away. -/
inductive Refusal where
  | error (status : Int) (message : String)
  | noKey
  | noCredentials

def Refusal.tell : Refusal → Handler Unit
  | error status message => sendError status message
  | noKey => send 401 (securityHeaders ++ [("Content-Type", jsonKind)])
      "\x7b\"error\":\"API key required\"\x7d"
  | noCredentials => send 401 (securityHeaders ++ [
      ("WWW-Authenticate", "Basic realm=\"VibeWeb Admin\""),
      ("Content-Type", "text/plain; charset=utf-8")]) "Authentication required"

inductive Stop where
  | refused (why : Refusal)
  | dropped
  | broken (e : Error)

def Stop.finish : Stop → Handler Unit
  | refused why => why.tell
  | dropped => pure ()
  | broken e => throw e

/-- What a look at a request leads to: something to go on with, or a reason to stop. -/
abbrev Look := Except Stop

def refuse {α : Type} (status : Int) (message : String) : Look α :=
  .error (.refused (.error status message))

variable {α β : Type} {value : α → β}

def through (look : Look α) (next : α → Handler Unit) : Handler Unit :=
  match look with
  | .ok a => next a
  | .error stop => stop.finish

/-- The value of a look, or a default once the request is stopped. -/
def settled (look : Look α) (value : α → β) (default : β) : Handler β :=
  match look with
  | .ok a => pure (value a)
  | .error stop => do
    stop.finish
    pure default

theorem bind_through {γ : Type} {x : Handler β} {look : Look α} {dflt : β}
    {next : β → Handler Unit} {f : α → Look γ} {k : γ → Handler Unit}
    (hl : x = settled look value dflt) (hg : ∀ a, next (value a) = through (f a) k)
    (hi : next dflt = pure () := by rfl) : x >>= next = through (look >>= f) k := by
  rw [hl]
  cases look with
  | ok a => exact hg a
  | error stop =>
    show (do stop.finish; pure dflt) >>= next = stop.finish
    rw [bind_assoc]
    simp only [pure_bind, hi]
    exact bind_pure_unit

theorem settled_bind_settled {γ δ : Type} {look : Look α} {dflt : β} {next : β → Handler δ}
    {f : α → Look γ} {v' : γ → δ} {dflt' : δ} (hi : next dflt = pure dflt')
    (hg : ∀ a, next (value a) = settled (f a) v' dflt') :
    settled look value dflt >>= next = settled (look >>= f) v' dflt' := by
  cases look with
  | ok a => exact hg a
  | error stop =>
    show (do stop.finish; pure dflt) >>= next = do stop.finish; pure dflt'
    rw [bind_assoc]
    simp only [pure_bind, hi]

/-! ## Gates -/

/-- Lets a request pass if a check says so. -/
def gate (check : Except Error Bool) (why : Refusal) : Look Unit :=
  match check with
  | .ok true => .ok ()
  | .ok false => .error (.refused why)
  | .error e => .error (.broken e)

section Plans

variable (setup : Setup) (r : Request)

def keyGate : Look Unit :=
  match setup.apiKey with
  | none => .ok ()
  | some "" => .ok ()
  | some key => gate (hasKey key r) .noKey

def adminGate : Look Unit :=
  match credentials setup with
  | none => .ok ()
  | some c => gate (hasCredentials c r) .noCredentials

def callerGate (action : Action) : Look Unit :=
  match action.auth with
  | "api" => keyGate setup r
  | "admin" => adminGate setup r
  | _ => .ok ()

def tokenGate : Json → Look Unit
  | .obj members =>
    let given := (Entries.get? "csrf_token" members).getD (.str "")
    if !given.truthy then refuse 403 "Missing CSRF token"
    else gate (sameSecret given.display setup.token) (.error 403 "Invalid CSRF token")
  | v => .error (.broken (.noMember v.kindName))

theorem gate_eq_settled (check : Except Error Bool) (why : Refusal) : (do
      if ← attempt id check then return true
      why.tell
      return false) = settled (gate check why) (fun _ => true) false := by
  rcases check with e | ⟨_ | _⟩ <;> rfl

theorem checkKey_eq_settled : checkKey setup r = settled (keyGate setup r) (fun _ => true) false := by
  unfold checkKey
  split <;> rename_i hf <;> unfold keyGate <;> simp only [hf]
  · rfl
  · rfl
  · exact gate_eq_settled _ .noKey

theorem checkAdmin_eq_settled : checkAdmin setup r = settled (adminGate setup r) (fun _ => true) false := by
  unfold checkAdmin adminGate
  cases credentials setup with
  | none => rfl
  | some c => exact gate_eq_settled _ .noCredentials

theorem checkCaller_eq_settled (act : Action) :
    checkCaller setup r act = settled (callerGate setup r act) (fun _ => true) false := by
  unfold checkCaller
  split
  · rename_i api
    unfold callerGate
    simp only [api]
    exact checkKey_eq_settled setup r
  · rename_i ha
    unfold callerGate
    simp only [ha]
    exact checkAdmin_eq_settled setup r
  · unfold callerGate
    simp only
    rfl

theorem checkToken_eq_settled (pl : Json) :
    checkToken setup pl = settled (tokenGate setup pl) (fun _ => true) false := by
  cases pl with
  | obj ms =>
    unfold checkToken tokenGate
    dsimp only
    split
    · rfl
    · exact gate_eq_settled _ (.error 403 "Invalid CSRF token")
  | _ => rfl

/-! ## Paths of rows and payloads -/

def rowsAt (path : String) : Look RowPath :=
  match Text.splitChar '/' path with
  | _ :: _ :: name :: rest =>
    match setup.models.get? name with
    | none => refuse 404 ("Unknown model: " ++ name)
    | some model =>
      if !setup.app.crud.contains name then refuse 403 ("CRUD disabled for " ++ name)
      else
        match rest.head?.getD "" with
        | "" => .ok ⟨model, none⟩
        | word =>
          match readInt word with
          | .ok id => .ok ⟨model, some id⟩
          | .error _ => refuse 400 "Invalid row id"
  | _ => refuse 404 "Invalid API path"

def bodyOf : Look (List UInt8) :=
  match r.header? "Content-Length" with
  | some length =>
    match readInt length with
    | .error _ => refuse 400 "Invalid Content-Length"
    | .ok n =>
      if setup.maxBody < n then refuse 413 "Payload too large" else .ok (r.body.take n.toNat)
  | none =>
    if Text.contains (Text.lower ((r.header? "Transfer-Encoding").getD "")) "chunked" then
      match (Chunked.read setup.maxBody r.body).body with
      | .ok (body, _) => .ok body
      | .error e => refuse 400 e.message
    else .ok []

/-- The payload in the bytes of a body, by the kind that the request gives. -/
def payloadIn (bytes : List UInt8) : Look Json :=
  match ((Text.splitChar ';' ((r.header? "Content-Type").getD "")).head?).getD "" with
  | "application/json" =>
    if bytes.isEmpty then .ok (.obj [])
    else
      match readJsonBytes bytes with
      | some .null => .error .dropped
      | some v => .ok v
      | none => refuse 400 "Invalid JSON payload"
  | "application/x-www-form-urlencoded" =>
    match Text.decode bytes with
    | .ok text => .ok (formObject (Url.readForm text))
    | .error e => .error (.broken (.utf8 e))
  | _ => .ok (.obj [])

def payloadOf : Look Json := do
  payloadIn r (← bodyOf setup r)

theorem rowPath_eq_settled (path : String) :
    rowPath setup path = settled (rowsAt setup path) some none := by
  unfold rowPath
  split
  · rename_i name rest hp
    unfold rowsAt
    simp only [hp]
    cases setup.models.get? name with
    | none => rfl
    | some model =>
      dsimp only
      split
      · rfl
      · by_cases hn : rest.head?.getD "" = ""
        · simp only [hn]
          rfl
        · simp only
          cases readInt (rest.head?.getD "") <;> rfl
  · unfold rowsAt
    simp only
    rfl

theorem readBody_eq_settled : readBody setup r = settled (bodyOf setup r) some none := by
  unfold readBody bodyOf
  cases r.header? "Content-Length" with
  | some len =>
    dsimp only
    cases readInt len with
    | error e => rfl
    | ok n =>
      dsimp only
      split <;> rfl
  | none =>
    dsimp only
    split
    · cases (Chunked.read setup.maxBody r.body).body <;> rfl
    · rfl

theorem readPayload_eq_settled : readPayload setup r = settled (payloadOf setup r) some none := by
  unfold readPayload payloadOf
  rw [readBody_eq_settled]
  refine settled_bind_settled rfl fun bs => ?_
  dsimp only
  split
  · rename_i hk
    unfold payloadIn
    simp only [hk]
    split
    · rfl
    · rcases readJsonBytes bs with _ | v
      · rfl
      · cases v <;> rfl
  · rename_i hk
    unfold payloadIn
    simp only [hk]
    cases Text.decode bs <;> rfl
  · unfold payloadIn
    simp only
    rfl

/-! ## Tasks -/

/-- The two ways in which rows are changed. -/
inductive Door where
  | api
  | admin

/-- What is done for a request that is not stopped. -/
inductive Task where
  | health
  | file (path : String)
  | describe
  | call (action : Action) (path : String) (payload : Json) (params : Params)
  | list (model : Model) (params : Params)
  | read (model : Model) (id : Int) (params : Params)
  | create (door : Door) (model : Model) (payload : Json)
  | change (door : Door) (model : Model) (id : Int) (payload : Json)
  | remove (door : Door) (model : Model) (id : Int)
  | home
  | form (model : Model) (word : String)
  | table (model : Model) (query : String)
  | page (path : String)

def perform : Task → Handler Unit
  | .health => sendJson (.obj [("ok", .bool true), ("name", .str setup.app.name)])
  | .file path => sendFile path
  | .describe => do sendJson (← attempt id (describe setup))
  | .call action path payload params => callAction setup r path action payload params
  | .list m params => listRows setup m params
  | .read m id params => readRow setup m id params
  | .create .api m payload =>
    createRow setup r m payload "api" "api_create" fun row => sendJson (rowJson m row) 201
  | .create .admin m payload =>
    createRow setup r m payload "admin" "admin_create" fun _ =>
      redirect (View.adminModelPath setup.app m)
  | .change .api m id payload =>
    changeRow setup r m id payload "api" "api_update" fun row => sendJson (rowJson m row)
  | .change .admin m id payload =>
    changeRow setup r m id payload "admin" "admin_update" fun _ =>
      redirect (View.adminModelPath setup.app m ++ "/" ++ Text.ofInt id)
  | .remove .api m id =>
    removeRow setup r m id "api" "api_delete" (sendJson (.obj [("ok", .bool true)]))
  | .remove .admin m id =>
    removeRow setup r m id "admin" "admin_delete" (redirect (View.adminModelPath setup.app m))
  | .home => showHome setup
  | .form m word => showRow setup m word
  | .table m query => showRows setup m query
  | .page path => showPage setup path

/-! ## Plans -/

/-- The payload of a method that comes with one; others have an empty object. -/
def callPayload : Look Json :=
  if hasPayload r.method then payloadOf setup r else .ok (.obj [])

def planCall (path query : String) (action : Action) :
    Look Task := do
  callerGate setup r action
  return .call action path (← callPayload setup r) (Url.readForm query)

def planRows (path query : String) : Look Task := do
  keyGate setup r
  match ← rowsAt setup path with
  | ⟨m, none⟩ => return .list m (Url.readForm query)
  | ⟨m, some id⟩ => return .read m id (Url.readForm query)

def planCreate (path : String) : Look Task := do
  keyGate setup r
  match ← rowsAt setup path with
  | ⟨m, none⟩ => return .create .api m (← payloadOf setup r)
  | ⟨_, some _⟩ => .error .dropped

def planChange (path : String) : Look Task := do
  keyGate setup r
  match ← rowsAt setup path with
  | ⟨m, some id⟩ => return .change .api m id (← payloadOf setup r)
  | ⟨_, none⟩ => .error .dropped

def planRemove (path : String) : Look Task := do
  keyGate setup r
  match ← rowsAt setup path with
  | ⟨m, some id⟩ => return .remove .api m id
  | ⟨_, none⟩ => .error .dropped

def planAdmin (path query : String) : Look Task := do
  adminGate setup r
  let base := setup.app.adminPath
  if path == base || path == base ++ "/" then return .home
  else
    let parts := adminParts setup path
    match setup.models.get? (parts.head?.getD "") with
    | none => refuse 404 "Unknown model"
    | some m =>
      match parts with
      | [_, word] => return .form m word
      | _ => return .table m query

def planForm (m : Model) (payload : Json) : List String → Look Task
  | ["create"] => return .create .admin m payload
  | [word, verb] =>
    if verb == "update" || verb == "delete" then
      match readInt word with
      | .error _ => refuse 400 "Invalid row id"
      | .ok id => return if verb == "update" then .change .admin m id payload else .remove .admin m id
    else refuse 404 "Unknown admin action"
  | _ => refuse 404 "Unknown admin action"

def planAdminForm (path : String) : Look Task := do
  adminGate setup r
  match adminParts setup path with
  | [] => refuse 404 "Invalid admin path"
  | name :: rest =>
    match setup.models.get? name with
    | none => refuse 404 "Unknown model"
    | some m =>
      let payload ← payloadOf setup r
      tokenGate setup payload
      planForm m (withoutToken payload) rest

def planGet (url : Url) : Look Task :=
  if url.path == "/healthz" then return .health
  else if Text.startsWith url.path "/static/" then return .file url.path
  else
    match routeOf? setup "GET" url.path with
    | some action => planCall setup r url.path url.query action
    | none =>
      if url.path == "/api/meta" then do
        keyGate setup r
        return .describe
      else if isApiPath url.path then planRows setup r url.path url.query
      else if isAdminPath setup url.path then planAdmin setup r url.path url.query
      else if (pageAt? setup url.path).isSome || url.path == "/" then return .page url.path
      else refuse 404 "Not found"

def planPost (url : Url) : Look Task :=
  match routeOf? setup "POST" url.path with
  | some action => planCall setup r url.path url.query action
  | none =>
    if isApiPath url.path then planCreate setup r url.path
    else if isAdminPath setup url.path then planAdminForm setup r url.path
    else refuse 404 "Not found"

def planPut (url : Url) : Look Task :=
  match routeOf? setup "PUT" url.path with
  | some action => planCall setup r url.path url.query action
  | none => if isApiPath url.path then planChange setup r url.path else refuse 404 "Not found"

def planDelete (url : Url) : Look Task :=
  match routeOf? setup "DELETE" url.path with
  | some action => planCall setup r url.path url.query action
  | none => if isApiPath url.path then planRemove setup r url.path else refuse 404 "Not found"

/-- The plan for a request. Methods that the server does not know are dropped. -/
def planOf : Look Task :=
  match Url.parse r.target with
  | .error e => .error (.broken (.address e))
  | .ok url =>
    match r.method with
    | "GET" => planGet setup r url
    | "POST" => planPost setup r url
    | "PUT" => planPut setup r url
    | "PATCH" => planPut setup r url
    | "DELETE" => planDelete setup r url
    | _ => .error .dropped

end Plans

/-! ## Answering is performing the plan -/

variable {su : Setup} {r : Request} (path query : String)

theorem handleAction_eq (act : Action) : handleAction su r path query act =
      through (planCall su r path query act) (perform su r) := by
  unfold handleAction planCall callPayload
  refine bind_through (checkCaller_eq_settled ..) fun _ => ?_
  cases hasPayload r.method with
  | true =>
    simp only [if_true]
    exact bind_through (readPayload_eq_settled ..) fun pl => rfl
  | false => rfl

theorem apiGet_eq : apiGet su r path query = through (planRows su r path query) (perform su r) := by
  refine bind_through (checkKey_eq_settled ..) fun _ => ?_
  refine bind_through (rowPath_eq_settled ..) fun place => ?_
  obtain ⟨m, _ | id⟩ := place <;> rfl

theorem apiPost_eq : apiPost su r path = through (planCreate su r path) (perform su r) := by
  refine bind_through (checkKey_eq_settled ..) fun _ => ?_
  refine bind_through (rowPath_eq_settled ..) fun place => ?_
  obtain ⟨m, _ | id⟩ := place
  · dsimp only
    exact bind_through (readPayload_eq_settled ..) fun pl => rfl
  · rfl

theorem apiPut_eq : apiPut su r path = through (planChange su r path) (perform su r) := by
  refine bind_through (checkKey_eq_settled ..) fun _ => ?_
  refine bind_through (rowPath_eq_settled ..) fun place => ?_
  obtain ⟨m, _ | id⟩ := place
  · rfl
  · dsimp only
    exact bind_through (readPayload_eq_settled ..) fun pl => rfl

theorem apiDelete_eq : apiDelete su r path = through (planRemove su r path) (perform su r) := by
  refine bind_through (checkKey_eq_settled ..) fun _ => ?_
  refine bind_through (rowPath_eq_settled ..) fun place => ?_
  obtain ⟨m, _ | id⟩ := place <;> rfl

theorem adminGet_eq : (do if ← checkAdmin su r then adminGet su path query) =
      through (planAdmin su r path query) (perform su r) := by
  refine bind_through (checkAdmin_eq_settled ..) fun _ => ?_
  rw [if_pos rfl]
  unfold adminGet
  dsimp only
  split
  · rfl
  · cases su.models.get? ((adminParts su path).head?.getD "") with
    | none => rfl
    | some m =>
      rcases adminParts su path with _ | ⟨name, _ | ⟨word, _ | ⟨more, rest⟩⟩⟩ <;> rfl

theorem adminChange_eq (m : Model) (pl : Json) (rest : List String) :
    adminChange su r m pl rest = through (planForm m pl rest) (perform su r) := by
  unfold adminChange
  split
  · rfl
  · rename_i word verb
    unfold planForm
    simp only
    split
    · cases readInt word with
      | error e => rfl
      | ok id =>
        dsimp only
        split <;> rfl
    · rfl
  · unfold planForm
    simp only
    rfl

theorem adminPost_eq : (do if ← checkAdmin su r then adminPost su r path) =
      through (planAdminForm su r path) (perform su r) := by
  refine bind_through (checkAdmin_eq_settled ..) fun _ => ?_
  rw [if_pos rfl]
  unfold adminPost
  cases adminParts su path with
  | nil => rfl
  | cons name rest =>
    dsimp only
    cases su.models.get? name with
    | none => rfl
    | some m =>
      refine bind_through (readPayload_eq_settled ..) fun pl => ?_
      exact bind_through (checkToken_eq_settled ..) fun _ => adminChange_eq ..

variable (url : Url)

theorem handleGet_eq : handleGet su r url = through (planGet su r url) (perform su r) := by
  unfold handleGet planGet
  dsimp only
  split
  · rfl
  split
  · rfl
  cases routeOf? su "GET" url.path with
  | some act => exact handleAction_eq ..
  | none =>
    dsimp only
    split
    · exact bind_through (checkKey_eq_settled ..) fun _ => rfl
    split
    · exact apiGet_eq ..
    split
    · exact adminGet_eq ..
    split <;> rfl

theorem handlePost_eq : handlePost su r url = through (planPost su r url) (perform su r) := by
  unfold handlePost planPost
  cases routeOf? su "POST" url.path with
  | some act => exact handleAction_eq ..
  | none =>
    dsimp only
    split
    · exact apiPost_eq ..
    split
    · exact adminPost_eq ..
    · rfl

theorem handlePut_eq : handlePut su r url = through (planPut su r url) (perform su r) := by
  unfold handlePut planPut
  cases routeOf? su "PUT" url.path with
  | some act => exact handleAction_eq ..
  | none =>
    dsimp only
    split
    · exact apiPut_eq ..
    · rfl

theorem handleDelete_eq : handleDelete su r url = through (planDelete su r url) (perform su r) := by
  unfold handleDelete planDelete
  cases routeOf? su "DELETE" url.path with
  | some act => exact handleAction_eq ..
  | none =>
    dsimp only
    split
    · exact apiDelete_eq ..
    · rfl

/-- Answering a request is performing its plan, once its client may make it. -/
theorem handle_eq_perform_planOf (setup : Setup) (r : Request) : handle setup r = (do
      if ← checkRate r then through (planOf setup r) (perform setup r)) := by
  unfold handle planOf
  congr 1
  funext allowed
  cases allowed with
  | false => rfl
  | true =>
    rw [if_pos rfl, if_pos rfl]
    cases Url.parse r.target with
    | error e => rfl
    | ok url =>
      show (match r.method with
        | "GET" => handleGet setup r url
        | "POST" => handlePost setup r url
        | "PUT" => handlePut setup r url
        | "PATCH" => handlePut setup r url
        | "DELETE" => handleDelete setup r url
        | _ => pure ()) = _
      split <;> simp only
      · exact handleGet_eq url
      · exact handlePost_eq url
      iterate 2 exact handlePut_eq url
      · exact handleDelete_eq url
      · rfl

/-! ## Counting -/

def isAllowed (r : Request) (s : State) : Bool :=
  (s.limiter.allow r.client s.session.clock).1

def counted (r : Request) (s : State) : State :=
  { s with limiter := (s.limiter.allow r.client s.session.clock).2 }

theorem checkRate_eq (r : Request) (s : State) :
    checkRate r s = if isAllowed r s then .ok true (counted r s)
      else (do
        sendError 429 "Rate limit exceeded"
        return false) (counted r s) := by
  show (do
    if !isAllowed r s then sendError 429 "Rate limit exceeded"
    return isAllowed r s : Handler Bool) (counted r s) = _
  cases isAllowed r s <;> rfl

theorem handle_eq_of_isAllowed (setup : Setup) {s : State} (ha : isAllowed r s) :
    handle setup r s = through (planOf setup r) (perform setup r) (counted r s) := by
  rw [handle_eq_perform_planOf]
  show EStateM.bind _ _ s = _
  rw [EStateM.bind, checkRate_eq, if_pos ha]
  rfl

theorem keeps_handle {R : State → State → Prop} [IsPreorder State R]
    (hc : Keeps R (checkRate r)) (hs : ∀ stop : Stop, Keeps R stop.finish)
    (ht : ∀ task, planOf su r = .ok task → Keeps R (perform su r task)) :
    Keeps R (handle su r) := by
  rw [handle_eq_perform_planOf]
  refine hc.bind fun allowed => Keeps.ite (fun _ => ?_) fun _ => keeps_pure _
  cases hp : planOf su r with
  | error stop => exact hs stop
  | ok task => exact ht task hp

end Appwright.Server
