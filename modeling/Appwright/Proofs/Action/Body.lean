import Appwright.Proofs.Action.Effects
import Appwright.Proofs.Template

/-!
# What a call without a body of its own sends

A call of a service that has no body sends the input of its action. The input is rendered before it
is sent, as a body of the call's own would be: it is read as a template, and whoever writes the
input can name in it whatever the context holds, the environment included (`forward_shows_secret`).

`http_bodies_eq_input_iff` says what is sent in general, and when it is the input itself: exactly
when each string of the input stands for itself. Strings without placeholders do.
-/

namespace Appwright.Action

def Context.input (c : Context) (w : World) : Json :=
  ((c.view w).get? "input").getD .null

theorem body_foldl_addHeader (hs : Json.Members) (r : Outbound.Request) :
    (hs.foldl (fun r h => r.addHeader h.1 h.2.display) r).body = r.body := by
  induction hs generalizing r with
  | nil => rfl
  | cons h rest ih => exact ih _

variable {c : Context} {call : Spec.HttpCall}

theorem template_of_render {t v : Json} {w w' : World} (h : render c t w = .ok v w') :
    Template.render (c.view w) t = .ok v := by
  obtain ⟨_, _, hre, hm⟩ := bind_eq_ok h
  cases hre
  cases hr : Template.render (c.view w) t with
  | ok u => rw [hr] at hm; cases hm; rfl
  | error e => rw [hr] at hm; cases hm

theorem body_of_httpRequest {alt : String} {w w' : World} {req : Outbound.Request}
    (hn : call.body = .null) (hs : isBodyless (methodOf call alt) = false)
    (hrea : httpRequest call c alt w = .ok req w') :
    ∃ v, Template.render (c.view w) (c.input w) = .ok v ∧ req.body = some v.encode := by
  obtain ⟨url, _, rendersUrl, hc⟩ := bind_eq_ok hrea
  cases (keeps_renderText c call.url).eq_of_ok rendersUrl
  obtain ⟨_, _, ha, hre⟩ := bind_eq_ok hc
  cases (keeps_attempt _ _).eq_of_ok ha
  obtain ⟨headers, _, hr, hm⟩ := bind_eq_ok hre
  cases (keeps_render c _).eq_of_ok hr
  simp only [hs, Bool.false_eq_true, if_false, hn, Json.isNull, if_true] at hm
  obtain ⟨_, _, reads, hren⟩ := bind_eq_ok hm
  cases reads
  obtain ⟨body, _, hr, ⟨⟩⟩ := bind_eq_ok hren
  exact ⟨body, template_of_render hr, body_foldl_addHeader _ _⟩

theorem grows_sent_runHttp {alt : String} (hn : call.body = .null)
    (hse : isBodyless (methodOf call alt) = false) (w : World) :
    Grows (fun w : World => w.session.sent) (fun s => ∃ v, Template.render (c.view w) (c.input w) = .ok v ∧
        s.request.body = some v.encode) w (ending (runHttp call c alt w)) := by
  refine ending_runHttp (fun req w' hr lim w₁ => ?_) fun n w₁ => Stays.grows rfl
  refine ⟨[⟨req, .float lim⟩], rfl, fun s hs => ?_⟩
  rw [List.mem_singleton.1 hs]
  exact body_of_httpRequest hn hse hr

theorem runAt_http {ls : Nat} {act : Spec.Action} (hk : act.kind = "http")
    (hp : act.http = some call) (c : Context) (w : World) :
    runAt ls act c w = runHttp call c act.method { w with calls := w.calls ++ [act] } := by
  unfold runAt
  simp only [hk, hp]
  rfl

/-- Every request of a call without a body of its own carries the rendered input. It carries the
input itself exactly when each string of the input stands for itself, as strings without
placeholders do. -/
theorem http_bodies_eq_input_iff (action : Spec.Action) {call : Spec.HttpCall}
    (kind : action.kind = "http") (part : action.http = some call) (noBody : call.body = .null)
    (sends : isBodyless (methodOf call action.method) = false) (c : Context) (w : World) :
    ∃ sent, (ending (run action c w)).session.sent = w.session.sent ++ sent ∧
      (∀ s ∈ sent, ∃ v, Template.render (c.view w) (c.input w) = .ok v ∧
        s.request.body = some v.encode) ∧
      ((∀ s ∈ sent, s.request.body = some (c.input w).encode) ↔
        sent = [] ∨
          ∀ t ∈ (c.input w).strings, Template.renderString (c.view w) t = .ok (.str t)) ∧
      ((∀ t ∈ (c.input w).strings, ¬ Template.HasHole t.toList) →
        ∀ s ∈ sent, s.request.body = some (c.input w).encode) := by
  obtain ⟨sent, grown, sentBodies⟩ :=
    grows_sent_runHttp (c := c) noBody sends { w with calls := w.calls ++ [action] }
  -- Templates do not see which actions began.
  have bodies : ∀ s ∈ sent, ∃ v, Template.render (c.view w) (c.input w) = .ok v ∧
      s.request.body = some v.encode := sentBodies
  have exactly : (∀ s ∈ sent, s.request.body = some (c.input w).encode) ↔
      sent = [] ∨ ∀ t ∈ (c.input w).strings, Template.renderString (c.view w) t = .ok (.str t) := by
    rw [← Template.render_eq_self_iff]
    refine ⟨fun raw => ?_, ?_⟩
    · rcases sent with _ | ⟨s, rest⟩
      · exact .inl rfl
      · obtain ⟨v, rendered, body⟩ := bodies s List.mem_cons_self
        rw [raw s List.mem_cons_self, Option.some.injEq] at body
        exact .inr ((Template.encode_render_eq_iff rendered).mp body.symm)
    · rintro (rfl | itself) s hs
      · cases hs
      · obtain ⟨v, rendered, body⟩ := bodies s hs
        rw [body, (Template.encode_render_eq_iff rendered).mpr itself]
  refine ⟨sent, ?_, bodies, exactly, fun plain => ?_⟩
  · rw [run, runAt_http kind part]
    exact grown
  · exact exactly.mpr (.inr fun t ht => Template.renderString_of_not_hasHole (plain t ht))

def forward : Spec.Action where
  name := "forward"
  http := some { url := "http://localhost/in" }

/-- What `forward` sends for a text without placeholders. -/
theorem forward_sends_hello :
    (forward.kind = "http" ∧ forward.http = some { url := "http://localhost/in" } ∧
      isBodyless (methodOf { url := "http://localhost/in" } forward.method) = false) ∧
    ∃ sent, (ending (run forward (.start [] (.str "hello") .null) {})).session.sent = sent ∧
      ∀ s ∈ sent, s.request.body = some "\"hello\"" := by
  have post : isBodyless (methodOf { url := "http://localhost/in" } forward.method) = false := by
    decide +kernel
  obtain ⟨sent, grown, -, -, plain⟩ :=
    http_bodies_eq_input_iff forward rfl rfl rfl post (.start [] (.str "hello") .null) {}
  refine ⟨⟨rfl, rfl, post⟩, sent, grown, plain fun t ht => ?_⟩
  rw [List.mem_singleton.mp ht]
  rintro ⟨before, path, after, chars, -⟩
  have dollar : '$' ∈ "hello".toList := by rw [chars]; simp
  exact absurd dollar (by decide)

/-- Whoever calls `forward` with the text of a placeholder gets a secret of the environment sent
instead of that text. -/
theorem forward_shows_secret :
    (ending (run forward
      (.start [("SECRET", "s3cret")] (.str "$\x7benv.SECRET\x7d") .null) {})).session.sent.map
        (·.request.body) = [some "\"s3cret\""] ∧
      Json.encode (.str "$\x7benv.SECRET\x7d") = "\"$\x7benv.SECRET\x7d\"" := by
  decide +kernel

end Appwright.Action
