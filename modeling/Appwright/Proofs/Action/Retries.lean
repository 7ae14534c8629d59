import Appwright.Proofs.Action.Gate
import Appwright.Proofs.Spec.Closed
import Appwright.Proofs.Template

/-!
# Calls of services that are tried again

A call sends one request until an answer settles it, and no more often than it may. Its result is
what the last answer says, and nothing else of the world changes (`runHttp_retries`).

A refusal with the status 0 is read as one with the status 500, so it does not settle a call. The
wait before a request is sent again doubles each time. It cannot be computed after 1024 of them, and
a call that gets so far fails; the calls of accepted specifications never do.
-/

namespace Appwright.Action

open List Spec Outbound Bool Nat

open Outbound (Failure Response Request backoffEnd)

def World.reads (w : World) (i : Nat) : Except Failure Response :=
  read (w.session.script.getD i noReply).outcome

/-- Between two worlds a request was sent a number of times, and nothing else was done. -/
structure Resent (request : Request) (count : Nat) (w w' : World) : Prop where
  script : w'.session.script = w.session.script.drop count
  sent : ∃ limits : List Json, limits.length = count ∧
    w'.session.sent = w.session.sent ++ limits.map (Sent.mk request)
  rest : w' = { w with session := w'.session }

variable {req : Request} {w w' w'' : World} {n : Nat}

theorem Resent.trans {m : Nat} (h : Resent req m w w') (h' : Resent req n w' w'') :
    Resent req (m + n) w w'' := by
  obtain ⟨first, hl, hs⟩ := h.sent
  obtain ⟨snd, hl', hs'⟩ := h'.sent
  refine ⟨?_, ⟨first ++ snd, ?_, ?_⟩, ?_⟩
  · rw [h'.script, h.script, drop_drop]
  · rw [length_append, hl, hl']
  · rw [hs', hs, map_append, append_assoc]
  · rw [h'.rest, h.rest]

theorem Resent.requests (h : Resent req n w w') : w'.session.sent.map Sent.request =
      w.session.sent.map Sent.request ++ replicate n req := by
  obtain ⟨limits, rfl, hs⟩ := h.sent
  rw [hs, map_append, map_map]
  exact congrArg _ map_const'

theorem reads_of_resent (h : Resent req n w w') (i : Nat) : w'.reads i = w.reads (n + i) := by
  rw [World.reads, World.reads, h.script, getD_eq_getElem?_getD, getD_eq_getElem?_getD, getElem?_drop]

/-! ## One request -/

theorem send_eq (req : Request) (lim : Float) (w : World) :
    ∃ w', send req lim w = .ok (w.reads 0) w' ∧ Resent req 1 w w' := by
  have next : w.session.script.headD noReply = w.session.script.getD 0 noReply := by
    cases w.session.script <;> rfl
  refine ⟨{ w with session := (w.session.call req (.float lim)).2 }, ?_,
    drop_one.symm, ⟨[.float lim], rfl, rfl⟩, rfl⟩
  rw [World.reads, ← next]
  rfl

theorem backOff_eq (he : n < backoffEnd) (w : World) :
    ∃ w', backOff n w = .ok () w' ∧ Resent req 0 w w' := by
  rw [backOff, if_pos he]
  exact ⟨_, rfl, rfl, ⟨[], rfl, (append_nil _).symm⟩, rfl⟩

theorem backOff_end (w : World) : backOff backoffEnd w = .error (.number .tooLarge) w := by
  rfl

section attempts

variable (c : Context) (limit : Json) (req : Request) (result : Except Failure Response → Result)

theorem callAttempts_zero (num : Nat) (w : World) :
    ∃ w', callAttempts c limit (send req) result 0 num w = .ok (result (w.reads 0)) w' ∧
      Resent req 1 w w' := by
  obtain ⟨w', hs, ho⟩ := send_eq req (timeLimit c limit w.session.clock) w
  rw [callAttempts, get_bind, bind_of_ok hs]
  exact ⟨w', rfl, ho⟩

theorem callAttempts_succ (left num : Nat) (w : World) :
    ∃ w', Resent req 1 w w' ∧ callAttempts c limit (send req) result (left + 1) num w =
      (if settles (w.reads 0) then pure (result (w.reads 0)) else
        backOff num >>= fun _ => callAttempts c limit (send req) result left (num + 1) : Run Result) w' := by
  obtain ⟨w', hs, ho⟩ := send_eq req (timeLimit c limit w.session.clock) w
  rw [callAttempts, get_bind, bind_of_ok hs]
  exact ⟨w', ho, rfl⟩

/-- A call that stops with a certain answer sends its request once for each answer up to that one,
unless it has to wait too often before. The induction is on the number of requests that may still be
sent. -/
theorem callAttempts_of_stops {left num k : Nat}
    (hs : StopsAt (fun i => settles (w.reads i)) left k) (hb : num ≤ backoffEnd) :
    (num + k ≤ backoffEnd → ∃ w', callAttempts c limit (send req) result left num w =
        .ok (result (w.reads k)) w' ∧ Resent req (k + 1) w w') ∧
      (backoffEnd < num + k → ∃ w', callAttempts c limit (send req) result left num w =
        .error (.number .tooLarge) w' ∧ Resent req (backoffEnd - num + 1) w w') := by
  induction left generalizing num k w with
  | zero =>
    obtain rfl : k = 0 := le_zero.1 hs.le
    exact ⟨fun _ => callAttempts_zero c limit req result num w, fun hla => by omega⟩
  | succ left ih =>
    obtain ⟨w₁, ho, hsa⟩ := callAttempts_succ c limit req result left num w
    rw [hsa]
    cases k with
    | zero =>
      have hse : settles (w.reads 0) := hs.last.resolve_right (by omega)
      rw [if_pos hse]
      exact ⟨fun _ => ⟨w₁, rfl, ho⟩, fun hla => by omega⟩
    | succ k =>
      rw [if_neg (hs.before 0 (succ_pos k))]
      rcases lt_or_eq_of_le hb with he | rfl
      · obtain ⟨w₂, hwa, hst⟩ : ∃ w', _ ∧ Resent req 0 w₁ w' := backOff_eq he w₁
        have hl := ho.trans hst
        rw [bind_of_ok hwa]
        have hg : StopsAt (fun i => settles (w₂.reads i)) left k := by
          simp only [reads_of_resent hl, Nat.add_comm 1]
          exact hs.tail
        obtain ⟨hen, hf⟩ := ih hg he
        rw [reads_of_resent hl, Nat.add_comm 1 k] at hen
        constructor
        · intro hw
          obtain ⟨w', ran, hm⟩ := hen (by omega)
          exact ⟨w', ran, by simpa only [Nat.add_comm, Nat.add_left_comm] using hl.trans hm⟩
        · intro hla
          obtain ⟨w', ran, hm⟩ := hf (by omega)
          refine ⟨w', ran, ?_⟩
          have all := hl.trans hm
          rwa [show 1 + 0 + (backoffEnd - (num + 1) + 1) = backoffEnd - num + 1 by omega] at all
      · refine ⟨fun hw => by omega, fun _ => ⟨w₁, bind_of_error (backOff_end w₁), ?_⟩⟩
        exact ho

end attempts

/-! ## Calls -/

/-- A response whose status is not one that may pass: neither 408 nor 429 nor from 500 to 599. -/
def Final (came : Except Failure Response) : Prop :=
  ∃ r, came = .ok r ∧ r.status ≠ 408 ∧ r.status ≠ 429 ∧ ¬ (500 ≤ r.status ∧ r.status ≤ 599)

theorem settles_iff {came : Except Failure Response} : settles came ↔ Final came := by
  cases came with
  | error e => simp [settles, Final]
  | ok r =>
    simp only [settles, Final, Except.ok.injEq, exists_eq_left', isRetryable,
      not_eq_true', or_eq_false_iff, and_eq_false_iff, beq_eq_false_iff_ne,
      decide_eq_false_iff_not]
    omega

structure Tells (expect : String) (came : Except Failure Response) (result : Result) : Prop where
  response : ∀ r, came = .ok r →
    result = answer (decide (200 ≤ r.status ∧ r.status < 300)) r.status (httpData expect r)
  failure : ∀ e, came = .error e →
    result = failure (if e.isTimeout then 504 else 502) e.message

theorem tells_httpResult (expect : String) (came : Except Failure Response) :
    Tells expect came (httpResult expect came) where
  response r hs := by
    subst hs
    rw [httpResult, isSuccess, decide_and]
  failure e hs := by
    subst hs
    rfl

theorem foldl_addHeader (headers : Json.Members) (verb url : String) (body : Option String) : ∃ r : Request,
      headers.foldl (fun r h => r.addHeader h.1 h.2.display) (Request.to verb url body) = r ∧
      r.method = verb ∧ r.url = storedUrl url := by
  have hk (r : Request) : (headers.foldl (fun r h => r.addHeader h.1 h.2.display) r).method = r.method ∧
        (headers.foldl (fun r h => r.addHeader h.1 h.2.display) r).url = r.url := by
    induction headers generalizing r with
    | nil => exact ⟨rfl, rfl⟩
    | cons h headers ih => exact ih (r.addHeader h.1 h.2.display)
  have hp := hk (Request.to verb url body)
  -- The parts of the new request are written out, since the stored address is costly to unfold.
  simp only [Request.to] at hp
  exact ⟨_, rfl, hp⟩

section ready

variable {call : HttpCall} {c : Context} {fallback url : String} {headers : Json}

theorem exists_httpRequest (ha : Template.renderText (c.view w) call.url = .ok url)
    (hal : checkUrl c.environment url = .ok ())
    (headed : Template.render (c.view w) (.obj (call.headers.mapValues .str)) = .ok headers)
    (hf : isBodyless (methodOf call fallback) ∨ ∃ body, Template.render (c.view w)
      (if call.body.isNull then ((c.view w).get? "input").getD .null else call.body) = .ok body) :
    ∃ req, httpRequest call c fallback w = .ok req w ∧
      req.method = methodOf call fallback ∧ req.url = storedUrl url := by
  have hre : renderText c call.url w = .ok url w := by
    rw [renderText, get_bind, ha]
    rfl
  have hc : (attempt .refused (checkUrl c.environment url) : Run Unit) w = .ok () w := by
    rw [hal]
    rfl
  have hr : render c (.obj (call.headers.mapValues .str)) w = .ok headers w := by
    rw [render, get_bind, headed]
    rfl
  unfold httpRequest
  rw [bind_of_ok hre, bind_of_ok hc, bind_of_ok hr]
  by_cases hb : isBodyless (methodOf call fallback)
  · rw [if_pos hb]
    obtain ⟨req, hs, hp⟩ := foldl_addHeader
      ((headers.members?.getD []).putNew "Accept" (.str "application/json"))
      (methodOf call fallback) url none
    rw [hs]
    exact ⟨req, rfl, hp⟩
  · rw [if_neg hb, get_bind]
    obtain ⟨body, renders⟩ := hf.resolve_left hb
    have hren : render c (if call.body.isNull then ((c.view w).get? "input").getD .null else call.body) w =
          .ok body w := by
      rw [render, get_bind, renders]
      rfl
    rw [bind_of_ok hren]
    obtain ⟨req, hs, hp⟩ := foldl_addHeader
      (((headers.members?.getD []).putNew "Content-Type" (.str "application/json")).putNew "Accept"
        (.str "application/json")) (methodOf call fallback) url (some (Json.encode body))
    rw [hs]
    exact ⟨req, rfl, hp⟩

theorem runHttp_of_request (hr : httpRequest call c fallback w = .ok req w) {retries : Int}
    (hc : call.retries.toWhole = .ok retries) (hn : 0 ≤ retries) :
    runHttp call c fallback w =
      callAttempts c call.timeout (send req) (httpResult call.expect) retries.toNat 0 w := by
  rw [runHttp, bind_of_ok hr, withRetries_of_ok hc hn]

end ready

theorem retries_of_accepted {spec : Json.Members} {app : App}
    (ha : check spec = .ok app) {a : Action} (mem : a ∈ app.actions)
    {call : HttpCall} (hpa : a.http = some call) :
    ∃ n, call.retries.toWhole = .ok n ∧ 0 ≤ n ∧ n ≤ 10 := by
  obtain ⟨raw, hp⟩ := exists_actionPassed ha mem
  obtain ⟨n, hw, hb⟩ := (checkHttp_eq_ok (hp.http call hpa).2).retries
  exact ⟨n, toWhole_of_whole? hw, hb⟩

/-- A call whose parts can be rendered and whose address is allowed sends one request until a final
response is read, and no more often than it may. Its result tells what was read last. Nothing is
raised unless the call has to wait more than 1024 times, which calls of accepted specifications never
do. -/
theorem runHttp_retries (call : Spec.HttpCall) (c : Context) (fallback url : String) (headers : Json)
    (retries : Int) (w : World)
    (addressed : Template.renderText (c.view w) call.url = .ok url)
    (allowed : Outbound.checkUrl c.environment url = .ok ())
    (headed : Template.render (c.view w) (.obj (call.headers.mapValues .str)) = .ok headers)
    (filled : isBodyless (methodOf call fallback) = true ∨ ∃ body, Template.render (c.view w)
      (if call.body.isNull then ((c.view w).get? "input").getD .null else call.body) = .ok body)
    (counted : call.retries.toWhole = .ok retries) (nonneg : 0 ≤ retries) :
    ∃ request k, httpRequest call c fallback w = .ok request w ∧
      request.method = methodOf call fallback ∧ request.url = Outbound.storedUrl url ∧
      StopsAt (fun i => Final (w.reads i)) retries.toNat k ∧
      (k ≤ 1024 → ∃ result w', runHttp call c fallback w = .ok result w' ∧
        Resent request (k + 1) w w' ∧ Tells call.expect (w.reads k) result) ∧
      (1024 < k → ∃ w', runHttp call c fallback w = .error (.number .tooLarge) w' ∧
        Resent request 1025 w w') ∧
      ∀ spec app, Spec.check spec = .ok app → ∀ a ∈ app.actions, ∀ call', a.http = some call' →
        ∃ n, call'.retries.toWhole = .ok n ∧ 0 ≤ n ∧ n ≤ 10 := by
  obtain ⟨request, ready, method, address⟩ := exists_httpRequest addressed allowed headed filled
  obtain ⟨k, stops⟩ := exists_stopsAt (fun i => Final (w.reads i)) retries.toNat
  have settled : StopsAt (fun i => settles (w.reads i)) retries.toNat k := by
    simpa only [settles_iff] using stops
  obtain ⟨ends, fails⟩ :=
    callAttempts_of_stops c call.timeout request (httpResult call.expect) settled (Nat.zero_le backoffEnd)
  rw [Nat.zero_add, ← runHttp_of_request ready counted nonneg] at ends fails
  refine ⟨request, k, ready, method, address, stops, fun within => ?_, fails,
    fun spec app accepted a mem call' part => retries_of_accepted accepted mem part⟩
  obtain ⟨w', ran, resent⟩ := ends within
  exact ⟨_, w', ran, resent, tells_httpResult _ _⟩

def insistent (retries : Int) : HttpCall where
  url := "http://localhost/in"
  retries := .int retries

def insistentContext : Context :=
  .start [] .null .null

def answering (outcomes : List (Except Failure Response)) : World where
  session := { script := outcomes.map fun outcome => { outcome } }

theorem renderText_insistent (retries : Int) (w : World) :
    Template.renderText (insistentContext.view w) (insistent retries).url = .ok "http://localhost/in" := by
  have ha : '$' ∉ "http://localhost/in".toList := by decide
  exact Template.renderText_of_not_hasHole (Template.not_hasHole_of_not_mem ha)

/-- A failing service and a time that runs out are tried again, a refusal is not. -/
theorem insistent_retries :
    ∃ request w', runHttp (insistent 3) insistentContext "POST"
        (answering [.ok { status := 503 }, .error .timeout, .ok { status := 404 }, .ok {}]) =
          .ok (answer false 404 (.str "")) w' ∧
      w'.session.sent.map Outbound.Sent.request = [request, request, request] := by
  obtain ⟨request, k, -, -, -, stops, ends, -, -⟩ := runHttp_retries (insistent 3) insistentContext
    "POST" "http://localhost/in" (.obj []) 3
    (answering [.ok { status := 503 }, .error .timeout, .ok { status := 404 }, .ok {}])
    (renderText_insistent 3 _) rfl rfl (.inr ⟨.null, rfl⟩) rfl (by decide)
  obtain rfl : k = 2 := by
    simp only [← settles_iff] at stops
    have third : ¬ 2 < k := fun later => stops.before 2 later (by decide)
    rcases (by omega : k = 0 ∨ k = 1 ∨ k = 2) with rfl | rfl | rfl
    · exact absurd stops.last (by decide)
    · exact absurd stops.last (by decide)
    · rfl
  obtain ⟨result, w', ran, resent, tells⟩ := ends (by decide)
  have told : result = answer false 404 (.str "") := by
    rw [tells.response { status := 404 } rfl]
    rfl
  subst told
  exact ⟨request, w', ran, resent.requests⟩

theorem exists_insistent_request (retries : Int) (w : World) :
    ∃ req, httpRequest (insistent retries) insistentContext "POST" w = .ok req w := by
  have headed : Template.render (insistentContext.view w)
      (.obj ((insistent retries).headers.mapValues .str)) = .ok (.obj []) := rfl
  obtain ⟨req, hr, -⟩ : ∃ req, httpRequest (insistent retries) insistentContext "POST" w = .ok req w ∧ _ :=
    exists_httpRequest (renderText_insistent retries w) rfl headed (.inr ⟨.null, rfl⟩)
  exact ⟨req, hr⟩

/-- A refusal with the status 0 is tried again, and after too many waits a call fails. -/
theorem insistent_at_limits :
    (∃ request w', runHttp (insistent 1) insistentContext "POST"
        (answering [.ok { status := 0 }, .ok {}]) = .ok (answer true 200 (.str "")) w' ∧
      w'.session.sent.map Outbound.Sent.request = [request, request]) ∧
    ∃ w', runHttp (insistent 1025) insistentContext "POST" (answering []) =
      .error (.number .tooLarge) w' := by
  constructor
  · obtain ⟨request, ready⟩ := exists_insistent_request 1 (answering [.ok { status := 0 }, .ok {}])
    have stops : StopsAt (fun i => settles ((answering [.ok { status := 0 }, .ok {}]).reads i)) 1 1 := by
      refine ⟨Nat.le_refl 1, fun i early => ?_, .inr rfl⟩
      obtain rfl : i = 0 := by omega
      decide
    obtain ⟨w', ran, resent⟩ := (callAttempts_of_stops insistentContext (insistent 1).timeout request (httpResult (insistent 1).expect) stops
      (Nat.zero_le backoffEnd)).1 (by decide)
    rw [runHttp_of_request ready rfl (by decide)]
    exact ⟨request, w', ran, resent.requests⟩
  · obtain ⟨request, ready⟩ := exists_insistent_request 1025 (answering [])
    have stops : StopsAt (fun i => settles ((answering []).reads i)) 1025 1025 :=
      ⟨Nat.le_refl _, fun i _ => Bool.false_ne_true, .inr rfl⟩
    obtain ⟨w', ran, -⟩ := (callAttempts_of_stops insistentContext (insistent 1025).timeout request (httpResult (insistent 1025).expect) stops
      (Nat.zero_le backoffEnd)).2 (by decide)
    rw [runHttp_of_request ready rfl (by decide)]
    exact ⟨w', ran⟩

end Appwright.Action
