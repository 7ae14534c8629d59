import Appwright.Proofs.Action.Effects
import Appwright.Proofs.Outbound.Address

/-!
# Which services actions call

Whatever an action sends, at whatever depth and in whatever attempt, goes to the stored form of an
address that passed the check (`grows_checked_runAt`). So it goes to an address that the environment
permits, with the exception that storing an address makes: `run_sends_permitted` says so of every
request of every run.

The exception can be met. The host of the language model's service counts with a blank at its end,
and a call of that address goes to the host without the blank, which nothing allows
(`ping_calls_unlisted_host`).
-/

namespace Appwright

open List Text Url

/-! ## Permitted addresses

The check reads the address as it is written, and a request stores it without the blanks around it.
The stored address is permitted too, but for addresses that end in a blank right after the authority
(`Blurred`).
-/

namespace Outbound

def namedHosts (env : Environment) : List String :=
  ((splitChar ',' (trim ((env.get? "VIBEWEB_OUTBOUND_ALLOW_HOSTS").getD ""))).map
    trim).filter fun h => !h.isEmpty

def AllowsAll (env : Environment) : Prop :=
  trim ((env.get? "VIBEWEB_OUTBOUND_ALLOW_HOSTS").getD "") = "*"

def IsServiceHost (env : Environment) (h : String) : Prop :=
  ∃ base u, env.get? "VIBEWEB_AI_BASE_URL" = some base ∧ parse base = .ok u ∧ u.host? = some h

/-- An address that the environment lets actions call. -/
structure Permitted (env : Environment) (u : Url) : Prop where
  scheme : u.scheme = "http" ∨ u.scheme = "https"
  secure : u.scheme = "http" → ∃ h ∈ localHosts, u.host? = some h
  host : ¬ AllowsAll env →
    ∃ h, u.host? = some h ∧ (h ∈ localHosts ∨ h ∈ namedHosts env ∨ IsServiceHost env h)

variable {env : Environment} {h : String}

theorem isServiceHost_of_mem {hosts : List String} (hf : serviceHost env = .ok hosts)
    (mem : h ∈ hosts) : IsServiceHost env h := by
  unfold serviceHost at hf
  split at hf
  · cases hf
    cases mem
  · cases hf
    cases mem
  · rename_i base _ hg
    cases hp : parse base with
    | error e => rw [hp] at hf; cases hf
    | ok u =>
      rw [hp] at hf
      cases hf
      exact ⟨base, u, hg, hp, Option.mem_toList.1 mem⟩

theorem allowedHosts_eq_ok {allowed : Option (List String)} (hf : allowedHosts env = .ok allowed) :
    AllowsAll env ∨ ∃ svc, serviceHost env = .ok svc ∧
      allowed = some (localHosts ++ namedHosts env ++ svc) := by
  unfold allowedHosts at hf
  dsimp only at hf
  split at hf
  · rename_i hs
    exact .inl (beq_iff_eq.1 hs)
  · obtain ⟨svc, hk, ⟨⟩⟩ := of_bind_ok hf
    exact .inr ⟨svc, hk, rfl⟩

theorem empty_not_mem_hosts (env : Environment) : "" ∉ localHosts ++ namedHosts env := by
  intro mem
  rcases mem_append.1 mem with mem | mem
  · revert mem
    decide
  · have hf := (mem_filter.1 mem).2
    exact absurd hf (by decide)

theorem permitted_of_checkUrl {addr : String} (hp : checkUrl env addr = .ok ()) :
    ∃ u, parse addr = .ok u ∧ u.authority ≠ "" ∧ Permitted env u := by
  obtain ⟨u, hpa, hp⟩ := of_bind_ok hp
  refine ⟨u, mapError_eq_ok hpa, ?_⟩
  by_cases hc : (u.scheme.isEmpty || u.authority.isEmpty)
  · rw [if_pos hc] at hp
    cases hp
  by_cases hk : (u.scheme != "https" && u.scheme != "http")
  · rw [if_neg hc, if_pos hk] at hp
    cases hp
  by_cases hsa : (u.scheme == "http" && !(localHosts.map some).contains u.host?)
  · rw [if_neg hc, if_neg hk, if_pos hsa] at hp
    cases hp
  rw [if_neg hc, if_neg hk, if_neg hsa] at hp
  obtain ⟨allowed, hosts, hp⟩ := of_bind_ok hp
  have hsc : u.scheme = "http" ∨ u.scheme = "https" := by
    simp only [Bool.and_eq_true, bne_iff_ne, not_and, not_not] at hk
    by_cases hs : u.scheme = "https"
    · exact .inr hs
    · exact .inl (hk hs)
  refine ⟨fun he => hc (by simp [he]), hsc, fun hpl => ?_, fun some => ?_⟩
  · simp only [hpl, beq_self_eq_true, Bool.true_and, Bool.not_eq_true', Bool.not_eq_false,
      contains_iff_mem, mem_map] at hsa
    obtain ⟨h, mem, same⟩ := hsa
    exact ⟨h, mem, same.symm⟩
  · rcases allowedHosts_eq_ok (mapError_eq_ok hosts) with all | ⟨svc, hk, rfl⟩
    · exact absurd all some
    · dsimp only at hp
      split at hp
      · rename_i hl
        rcases mem_append.1 (contains_iff_mem.1 hl) with mem | mem
        · cases host : u.host? with
          | none => exact absurd mem (by rw [host]; exact empty_not_mem_hosts env)
          | some h =>
            rw [host, Option.getD_some, mem_append] at mem
            exact ⟨h, rfl, mem.imp_right .inl⟩
        · obtain ⟨base, v, hg, hpa, host⟩ := isServiceHost_of_mem hk mem
          cases hf : u.host? with
          | none => exact absurd (by rw [hf]; rfl) (host?_ne_empty host)
          | some h =>
            rw [hf] at host
            exact ⟨h, rfl, .inr (.inr ⟨base, v, hg, hpa, host⟩)⟩
      · cases hp

/-! ## Stored addresses -/

theorem Permitted.congr {u v : Url} (hp : Permitted env u) (hs : v.scheme = u.scheme)
    (host : v.host? = u.host?) : Permitted env v :=
  ⟨hs ▸ hp.scheme, fun h => host ▸ hp.secure (hs ▸ h), fun h => host ▸ hp.host h⟩

/-- A permitted address that ends in a blank as part of its authority, so that its stored form has
another authority: one with a bracket that is not closed, or with the host of the language model's
service. -/
structure Blurred (env : Environment) (address : String) (u : Url) : Prop where
  parsed : parse address = .ok u
  permitted : Permitted env u
  blank : trimBack u.authority ≠ u.authority
  cause : u.Unclosed ∨ ∃ h, u.host? = some h ∧ trimBack h ≠ h ∧ IsServiceHost env h

theorem trimBack_of_mem_localHosts (mem : h ∈ localHosts) : trimBack h = h := by
  revert h
  decide +kernel

theorem trimBack_of_mem_namedHosts (mem : h ∈ namedHosts env) : trimBack h = h := by
  obtain ⟨entry, -, rfl⟩ := mem_map.1 (mem_filter.1 mem).1
  exact trimBack_trim entry

theorem permitted_storedUrl {addr : String} (hpas : checkUrl env addr = .ok ()) :
    (∃ v, parse (storedUrl addr) = .ok v ∧ Permitted env v) ∨ ∃ u, Blurred env addr u := by
  obtain ⟨u, hpar, hg, hp⟩ := permitted_of_checkUrl hpas
  obtain ⟨ho, kept, tail, hpa, hb, hst⟩ := parse_storedUrl hpar hp.scheme hg
  by_cases hsol : trimBack u.authority = u.authority
  · have hw : String.ofList kept = u.authority := by
      rw [eq_nil_of_trimBack hsol hpa hb, append_nil] at hpa
      rw [← hpa, String.ofList_toList]
    obtain ⟨v, hr, hs, ha⟩ := hst (hw ▸ ho)
    refine .inl ⟨v, hr, hp.congr hs ?_⟩
    rw [host?_eq, host?_eq, ha, hw]
  by_cases hc : u.Unclosed ∨ ∃ h, u.host? = some h ∧ trimBack h ≠ h ∧ IsServiceHost env h
  · exact .inr ⟨u, hpar, hp, hsol, hc⟩
  obtain ⟨hcl, hso⟩ := not_or.1 hc
  obtain ⟨v, hr, hs, ha⟩ := hst (checkBrackets_of_append hpa hb hcl ho)
  have hsa {h : String} (hf : u.host? = some h) (hfi : trimBack h = h) : v.host? = some h := by
    refine host?_of_append ?_ hb hf hfi
    rw [ha, String.toList_ofList, hpa]
  refine .inl ⟨v, hr, hs ▸ hp.scheme, fun hpl => ?_, fun some => ?_⟩
  · obtain ⟨h, mem, hf⟩ := hp.secure (hs ▸ hpl)
    exact ⟨h, mem, hsa hf (trimBack_of_mem_localHosts mem)⟩
  · obtain ⟨h, hf, hal⟩ := hp.host some
    refine ⟨h, hsa hf ?_, hal⟩
    rcases hal with mem | mem | hse
    · exact trimBack_of_mem_localHosts mem
    · exact trimBack_of_mem_namedHosts mem
    · by_contra hbl
      exact hso ⟨h, hf, hbl, hse⟩

end Outbound

end Appwright

namespace Appwright.Action

/-! ## Requests -/

def Checked (env : Outbound.Environment) (s : Outbound.Sent) : Prop :=
  ∃ address, Outbound.checkUrl env address = .ok () ∧ s.request.url = Outbound.storedUrl address

theorem url_to (verb url : String) (body : Option String) :
    (Outbound.Request.to verb url body).url = Outbound.storedUrl url := by
  simp only [Outbound.Request.to]

theorem url_addHeader (r : Outbound.Request) (name v : String) : (r.addHeader name v).url = r.url := rfl

theorem url_foldl_addHeader (hs : Json.Members) (r : Outbound.Request) :
    (hs.foldl (fun r h => r.addHeader h.1 h.2.display) r).url = r.url := by
  induction hs generalizing r with
  | nil => rfl
  | cons h rest ih => exact (ih _).trans (url_addHeader r _ _)

variable {req : Outbound.Request}

theorem url_of_httpRequest {call : Spec.HttpCall} {c : Context} {alt : String} {w w' : World}
    (hrea : httpRequest call c alt w = .ok req w') :
    ∃ addr, Outbound.checkUrl c.environment addr = .ok () ∧ req.url = Outbound.storedUrl addr := by
  obtain ⟨addr, _, -, hc⟩ := bind_eq_ok hrea
  obtain ⟨_, _, hp, hr⟩ := bind_eq_ok hc
  obtain ⟨hpa, -⟩ := eq_ok_of_attempt hp
  obtain ⟨hs, _, -, hm⟩ := bind_eq_ok hr
  refine ⟨addr, hpa, ?_⟩
  split at hm
  · rw [← (EStateM.Result.ok.inj hm).1, url_foldl_addHeader, url_to]
  · obtain ⟨_, _, -, hre⟩ := bind_eq_ok hm
    obtain ⟨body, _, -, hma⟩ := bind_eq_ok hre
    rw [← (EStateM.Result.ok.inj hma).1, url_foldl_addHeader, url_to]

theorem url_of_chatRequest {call : Spec.LlmCall} {chat : Chat}
    (hm : chatRequest call chat = .ok req) : req.url = Outbound.storedUrl (chatAddress chat) := by
  unfold chatRequest at hm
  unfold chatAddress
  split at hm
  · rename_i ho
    rw [if_pos ho]
    dsimp only at hm
    split at hm <;> simp only [← Except.ok.inj hm, jsonRequest, url_addHeader, url_to]
  · rename_i hot
    rw [if_neg hot]
    split at hm
    · simp only [← Except.ok.inj hm, jsonRequest, url_addHeader, url_to]
    · cases hm

/-- What is sent below an action is checked. The induction is on the levels that are left, and a
step's action sees the environment of its flow. -/
theorem grows_checked_runAt (ls : Nat) (act : Spec.Action) (c : Context) (w : World) :
    Grows (fun w : World => w.session.sent) (Checked c.environment)
      { w with calls := w.calls ++ [act] } (ending (runAt ls act c w)) := by
  induction ls using Nat.strongRecOn generalizing act c w with
  | ind ls ih =>
    have hpa (n : Nat) : Keeps (Grows (fun w : World => w.session.sent) (Checked c.environment))
        (pauseAfter n) :=
      fun w => Stays.grows rfl
    have hse {request : Outbound.Request} {addr : String}
        (hp : Outbound.checkUrl c.environment addr = .ok ())
        (hst : request.url = Outbound.storedUrl addr) (lim : Float) :
        Keeps (Grows (fun w : World => w.session.sent) (Checked c.environment)) (send request lim) := by
      refine fun w => ⟨[⟨request, .float lim⟩], rfl, fun s hs => ?_⟩
      rw [List.mem_singleton.1 hs]
      exact ⟨addr, hp, hst⟩
    refine ending_runAt (fun call _ w => ?_) (fun call _ => ?_) (fun call _ => ?_) ?_ w
    · refine ending_runHttp (fun request w' hr => ?_) hpa
      obtain ⟨addr, hp, hst⟩ := url_of_httpRequest hr
      exact hse hp hst
    · exact keeps_runLlm (fun chat request hm hp => hse hp (url_of_chatRequest hm)) hpa
    · refine keeps_runDb fun op w => Stays.grows ?_
      unfold onStore
      cases op.run w.store <;> rfl
    · intro left flow hmo part
      have hb : Blind (Grows (fun w : World => w.session.sent) (Checked c.environment)) :=
        fun w ss vars => Stays.grows rfl
      refine hb.keeps_runFlowBody (fun reg step used inp due _ w => ?_) hpa
      exact ih left (by omega) used (stepContext c inp due) w

/-- Every request that an action sends, in whatever context and world, goes to an address that the
environment permits, unless the address was written with a blank right after its authority and is
blurred. -/
theorem run_sends_permitted (action : Spec.Action) (c : Context) (w : World) :
    ∃ more, (ending (run action c w)).session.sent = w.session.sent ++ more ∧
      ∀ s ∈ more,
        (∃ v, Url.parse s.request.url = .ok v ∧ Outbound.Permitted c.environment v) ∨
        ∃ address u, s.request.url = Outbound.storedUrl address ∧
          Outbound.Blurred c.environment address u := by
  obtain ⟨more, grown, checked⟩ :=
    grows_checked_runAt (maxDepth + 1 - c.depth).toNat action c w
  refine ⟨more, grown, fun s hs => ?_⟩
  obtain ⟨address, passed, stored⟩ := checked s hs
  rw [stored]
  rcases Outbound.permitted_storedUrl passed with permitted | ⟨u, blurred⟩
  · exact .inl permitted
  · exact .inr ⟨address, u, rfl, blurred⟩

def ping : Spec.Action where
  name := "ping"
  http := some { url := "$\x7benv.VIBEWEB_AI_BASE_URL\x7d" }

def blankService : Outbound.Environment :=
  [("VIBEWEB_AI_BASE_URL", "https://api.example.com ")]

/-- With a blank after the service's address, `ping` calls a host that is not allowed. -/
theorem ping_calls_unlisted_host :
    (ending (run ping (.start blankService .null .null) {})).session.sent.map (·.request.url) =
        ["https://api.example.com"] ∧
      ∃ v, Url.parse "https://api.example.com" = .ok v ∧ ¬ Outbound.Permitted blankService v := by
  refine ⟨by decide +kernel, ⟨"https", "api.example.com", "", "", "", ""⟩, by decide +kernel, ?_⟩
  intro permitted
  have some : ¬ Outbound.AllowsAll blankService := by
    unfold Outbound.AllowsAll
    decide +kernel
  obtain ⟨h, found, allowed⟩ := permitted.host some
  have called : h = "api.example.com" := by
    rw [← Option.some.injEq, ← found]
    decide +kernel
  subst called
  rcases allowed with mem | mem | ⟨base, u, given, parsed, host⟩
  · exact absurd mem (by decide +kernel)
  · exact absurd mem (by decide +kernel)
  · cases given
    have read : (Url.parse "https://api.example.com ").map Url.host? =
        .ok (.some "api.example.com ") := by decide +kernel
    rw [parsed, Except.map, host] at read
    exact absurd (Except.ok.inj read) (by decide +kernel)

end Appwright.Action
