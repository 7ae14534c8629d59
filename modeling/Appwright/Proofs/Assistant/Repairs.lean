import Appwright.Assistant.Generate
import Appwright.Proofs.Run

/-!
# Drafts and repairs

An assistant's answer holds a draft. A draft that fails the check is answered with the error, and a
draft that passes is what the assistant makes. `generate_repairs` tells the requests and the answers
of a whole run from each other.
-/

namespace Appwright.Assistant

open Spec Outbound List Nat

/-- The answer that a session has for the call after so many others. -/
def replyAt (s : Session) (i : Nat) : Reply :=
  s.script.getD i noReply

/-- The specification that an answer holds: the object in its text, completed. -/
def Chat.Drafts (c : Chat) (reply : Reply) (spec : Json.Members) : Prop :=
  ∃ response data text v, reply.outcome = .ok response ∧ answerData response = .ok data ∧
    c.content data = .ok (.str text) ∧ extract text = .ok v ∧ complete v = .ok spec

variable {chat : Chat} {pr : String} {last : Option Error} {spec : Json.Members}
  {s s' : Session}

theorem exists_of_specOf {data : Json} (h : chat.specOf data = .ok spec) :
    ∃ text v, chat.content data = .ok (.str text) ∧ extract text = .ok v ∧ complete v = .ok spec := by
  obtain ⟨cont, hf, h⟩ := of_bind_ok h
  unfold specOfContent at h
  split at h
  next text =>
    split at h
    next v he => exact ⟨text, v, hf, he, mapError_eq_ok h⟩
    · cases h
    · cases h
  · cases h

/-! ## One request -/

/-- What is sent for a prompt, with the error of the last draft. -/
def Chat.sending (c : Chat) (prompt : String) (last : Option Error) : Sent :=
  ⟨c.request (messages prompt last), .int 60⟩

def asked (chat : Chat) (prompt : String) (last : Option Error) (s : Session) :
    Session :=
  (s.call (chat.request (messages prompt last)) (.int 60)).2

theorem sent_asked : (asked chat pr last s).sent = s.sent ++ [chat.sending pr last] := rfl

theorem replyAt_asked (i : Nat) : replyAt (asked chat pr last s) i = replyAt s (i + 1) := by
  change s.script.tail.getD i _ = s.script.getD (i + 1) _
  cases s.script <;> rfl

/-- A request is not sent, or brings nothing to read, or brings data. -/
theorem post_cases (req : Request) (s : Session) : (∃ e, post req s = .error e s) ∨
    (∃ e, post req s = .error e (s.call req (.int 60)).2) ∨
    ∃ resp data, (replyAt s 0).outcome = .ok resp ∧ answerData resp = .ok data ∧
      post req s = .ok data (s.call req (.int 60)).2 := by
  have hc : (modifyGet (Session.call req (.int 60)) : Run _) s =
      .ok (replyAt s 0).outcome (s.call req (.int 60)).2 := by
    have next : replyAt s 0 = s.script.headD noReply := by
      unfold replyAt
      cases s.script <;> rfl
    rw [next]
    rfl
  unfold post
  by_cases hu : (!hasScheme req.url)
  · rw [if_pos hu]
    exact .inl ⟨_, rfl⟩
  rw [if_neg hu]
  refine .inr ?_
  beta_reduce
  rw [bind_of_ok hc]
  cases (replyAt s 0).outcome with
  | error err => cases err <;> exact .inl ⟨_, rfl⟩
  | ok resp =>
    cases hr : answerData resp with
    | error e => exact .inl ⟨e, by simp only [hr]; rfl⟩
    | ok data => exact .inr ⟨resp, data, rfl, hr, by simp only [hr]; rfl⟩

theorem ask_cases (chat : Chat) (prompt : String) (last : Option Error) (s : Session) :
    (∃ e, ask chat prompt last s = .error e s) ∨
    (∃ e, ask chat prompt last s = .error e (asked chat prompt last s)) ∨
    ∃ spec, ask chat prompt last s = .ok spec (asked chat prompt last s) ∧
      chat.Drafts (replyAt s 0) spec := by
  unfold ask
  by_cases ho : (chat.provider == .other)
  · rw [if_pos ho]
    exact .inl ⟨_, rfl⟩
  rw [if_neg ho]
  beta_reduce
  rcases post_cases (chat.request (messages prompt last)) s with
    ⟨e, run⟩ | ⟨e, run⟩ | ⟨resp, data, ha, hr, run⟩
  · exact .inl ⟨e, bind_of_error run⟩
  · exact .inr (.inl ⟨e, bind_of_error run⟩)
  rw [bind_of_ok run]
  cases hf : chat.specOf data with
  | error e => exact .inr (.inl ⟨e, rfl⟩)
  | ok spec =>
    obtain ⟨text, v, hco, he, hc⟩ := exists_of_specOf hf
    exact .inr (.inr ⟨spec, rfl, resp, data, text, v, ha, hr, hco, he, hc⟩)

/-! ## Runs -/

theorem attempts_sends (chat : Chat) (prompt : String) (last : Option Error)
    (s : Session) (total : Int) (left : Nat) : ∃ more : List Sent,
    (ending (attempts chat prompt total last left s)).sent = s.sent ++ more ∧ more.length ≤ left := by
  induction left generalizing last s with
  | zero => exact ⟨[], (append_nil _).symm, le_refl 0⟩
  | succ left ih =>
    rw [attempts]
    rcases ask_cases chat prompt last s with ⟨e, run⟩ | ⟨e, run⟩ | ⟨draft, run, -⟩
    · rw [bind_of_error run]
      exact ⟨[], (append_nil _).symm, zero_le _⟩
    · rw [bind_of_error run]
      exact ⟨_, sent_asked, succ_le_succ (zero_le left)⟩
    · rw [bind_of_ok run]
      cases check draft with
      | ok app => exact ⟨_, sent_asked, succ_le_succ (zero_le left)⟩
      | error e =>
        obtain ⟨more, hs, few⟩ := ih (some e) (asked chat prompt last s)
        refine ⟨chat.sending prompt last :: more, ?_, succ_le_succ few⟩
        rw [hs, sent_asked, append_assoc, singleton_append]

/-- Drafts that fail, and their errors in the requests that follow. -/
theorem attempts_ok {total : Int} {left : Nat}
    (h : attempts chat pr total last left s = .ok spec s') : ∃ errs : List Error,
      errs.length < left ∧ s'.sent = s.sent ++ (last :: errs.map some).map (chat.sending pr) ∧
      chat.Drafts (replyAt s errs.length) spec ∧ (∃ app, check spec = .ok app) ∧
      ∀ i e, errs[i]? = some e → ∃ draft, chat.Drafts (replyAt s i) draft ∧ check draft = .error e := by
  induction left generalizing last s with
  | zero => cases h
  | succ left ih =>
    rw [attempts] at h
    rcases ask_cases chat pr last s with ⟨e, run⟩ | ⟨e, run⟩ | ⟨draft, run, hd⟩
    · rw [bind_of_error run] at h
      cases h
    · rw [bind_of_error run] at h
      cases h
    rw [bind_of_ok run] at h
    cases hc : check draft with
    | ok app =>
      rw [hc] at h
      cases h
      exact ⟨[], succ_pos left, sent_asked, hd, ⟨app, hc⟩, by simp⟩
    | error e =>
      rw [hc] at h
      obtain ⟨errs, few, hs, hm, ha, hf⟩ := ih h
      simp only [replyAt_asked] at hm hf
      refine ⟨e :: errs, succ_lt_succ few, ?_, hm, ha, fun i e' at' => ?_⟩
      · rw [hs, sent_asked, append_assoc]
        rfl
      · cases i with
        | zero =>
          obtain rfl : e = e' := by simpa using at'
          exact ⟨draft, hd, hc⟩
        | succ i => exact hf i e' (by simpa using at')

theorem generate_eq_ok {env : Environment} {ord : Order}
    (h : generate env ord s = .ok spec s') : ∃ chat repairs, prepare env ord = .ok chat ∧
      repairTries env = .ok repairs ∧
      attempts chat ord.prompt (repairs + 1) none (repairs + 1).toNat s = .ok spec s' := by
  unfold generate at h
  cases hr : prepare env ord with
  | error e =>
    rw [hr] at h
    cases h
  | ok chat =>
    cases ht : repairTries env with
    | error e =>
      rw [hr, ht] at h
      cases h
    | ok repairs =>
      rw [hr, ht] at h
      exact ⟨chat, repairs, rfl, rfl, h⟩

theorem generate_sends (env : Environment) (ord : Order) (s : Session) :
    ∃ more, (ending (generate env ord s)).sent = s.sent ++ more ∧
      (∀ repairs, repairTries env = .ok repairs → (more.length : Int) ≤ max 0 (repairs + 1)) ∧
      ∀ e, repairTries env = .error e → more = [] := by
  unfold generate
  have hn : ∃ more : List Sent, s.sent = s.sent ++ more ∧
      (∀ repairs, repairTries env = .ok repairs → (more.length : Int) ≤ max 0 (repairs + 1)) ∧
      ∀ e, repairTries env = .error e → more = [] :=
    ⟨[], (append_nil _).symm, fun _ _ => Int.le_max_left .., fun _ _ => rfl⟩
  cases prepare env ord with
  | error e => exact hn
  | ok chat =>
    cases ht : repairTries env with
    | error e =>
      rw [ht] at hn
      exact hn
    | ok repairs =>
      obtain ⟨more, hs, few⟩ := attempts_sends chat ord.prompt none s (repairs + 1) (repairs + 1).toNat
      refine ⟨more, hs, fun n hsa => ?_, fun e hw => by cases hw⟩
      cases hsa
      omega

def EndsWith (r : Request) (m : Json) : Prop :=
  ∃ payload messages, r.body = some (Json.write Json.ascii payload) ∧
    payload.get? "messages" = some (.arr messages) ∧ messages.getLast? = some m

theorem endsWith_sending (chat : Chat) (prompt : String) (e : Error) :
    EndsWith (chat.sending prompt (some e)).request
      (message "user" ("Fix the JSON to satisfy the VibeWeb spec. Validation error: " ++ e.message)) := by
  refine ⟨chat.payload (messages prompt (some e)), messages prompt (some e), ?_, ?_, rfl⟩
  · unfold Chat.sending Chat.request
    split <;> rfl
  · unfold Chat.payload
    split <;> rfl

/-- A specification that is made is the draft of the last answer, and it passes the check. The drafts
of the answers before fail, and the error of each is the end of the request that follows. There are
no more requests than the settings allow, whether a specification is made or not. -/
theorem generate_repairs (env : Outbound.Environment) (order : Order) (s : Outbound.Session) :
    (∀ spec s', generate env order s = .ok spec s' → ∃ chat repairs, ∃ errors : List Spec.Error,
      prepare env order = .ok chat ∧ repairTries env = .ok repairs ∧ (errors.length : Int) ≤ repairs ∧
      s'.sent = s.sent ++ (none :: errors.map some).map (chat.sending order.prompt) ∧
      chat.Drafts (replyAt s errors.length) spec ∧ (∃ app, Spec.check spec = .ok app) ∧
      ∀ i e, errors[i]? = some e →
        (∃ draft, chat.Drafts (replyAt s i) draft ∧ Spec.check draft = .error e) ∧
        EndsWith (chat.sending order.prompt (some e)).request (message "user"
          ("Fix the JSON to satisfy the VibeWeb spec. Validation error: " ++ e.message))) ∧
    ∃ more, (ending (generate env order s)).sent = s.sent ++ more ∧
      (∀ repairs, repairTries env = .ok repairs → (more.length : Int) ≤ max 0 (repairs + 1)) ∧
      ∀ e, repairTries env = .error e → more = [] := by
  refine ⟨fun spec s' made => ?_, generate_sends env order s⟩
  obtain ⟨chat, repairs, ready, tries, ran⟩ := generate_eq_ok made
  obtain ⟨errors, few, sent, drafted, accepted, failed⟩ := attempts_ok ran
  exact ⟨chat, repairs, errors, ready, tries, by omega, sent, drafted, accepted,
    fun i e found => ⟨failed i e found, endsWith_sending chat order.prompt e⟩⟩

def drafting (specs : List Json) : Session where
  script := specs.map fun spec =>
    let answer : Json := .obj [("message", .obj [("content", .str spec.encode)])]
    ⟨0.0, .ok { body := (Json.encode (.obj [("choices", .arr [answer])])).toUTF8.data.toList }⟩

def notesOrder : Order where
  prompt := "notes"
  baseUrl := "http://localhost"

def twoDrafts : Session :=
  drafting ([.int 1, .str "Notes"].map fun name =>
    .obj [("name", name), ("db", .obj [("models", .arr [])])])

def sentOf? : EStateM.Result GenerateError Session Json.Members → Option Nat
  | .ok _ s => some s.sent.length
  | .error _ _ => none

theorem notes_repaired : ∃ spec s', ∃ chat : Chat, ∃ e draft, generate [] notesOrder twoDrafts = .ok spec s' ∧
    s'.sent = [chat.sending "notes" none, chat.sending "notes" (some e)] ∧
    chat.Drafts (replyAt twoDrafts 0) draft ∧ Spec.check draft = .error e ∧
    chat.Drafts (replyAt twoDrafts 1) spec := by
  have two : sentOf? (generate [] notesOrder twoDrafts) = some 2 := by decide +kernel
  cases made : generate [] notesOrder twoDrafts with
  | error e s' =>
    rw [made] at two
    cases two
  | ok spec s' =>
    rw [made] at two
    obtain ⟨chat, -, errors, -, -, -, sent, drafted, -, failed⟩ :=
      (generate_repairs [] notesOrder twoDrafts).1 spec s' made
    obtain ⟨e, rfl⟩ : ∃ e, errors = [e] := by
      have count : s'.sent.length = 2 := Option.some.inj two
      rw [sent] at count
      exact List.length_eq_one_iff.mp (by simpa [twoDrafts, drafting] using count)
    obtain ⟨⟨draft, first, wrong⟩, -⟩ := failed 0 e rfl
    exact ⟨spec, s', chat, e, draft, rfl, sent, first, wrong, drafted⟩

end Appwright.Assistant
