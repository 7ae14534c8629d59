import Appwright.Proofs.Spec.Accepted

/-!
# Closed applications

Everything that an accepted application refers to is there: models, fields of models and actions,
each under a name of its own. Its numbers lie within their bounds. What is said here of an
application (`App.Closed`) is said in terms of its parts alone, without the checks that they passed.

Nothing is said about how names compare once they are names of tables: two models whose names
differ only in the case of letters are two models here.
-/

namespace Appwright.Spec

open Entries Action

structure Bounded (retries timeout : Json) : Prop where
  retries : Between 0 10 retries
  timeout : AtLeast 1 timeout

/-- An operation on rows names a model, and where it writes, fields of that model. -/
structure DbCall.Closed (models : List Model) (c : DbCall) : Prop where
  model : ∃ m ∈ models, m.name = c.model ∧
    (c.op = "insert" → ∃ data, c.data = .obj data ∧ ∀ f ∈ names data, f ∈ m.fieldNames) ∧
    (c.op = "update" → ∃ patch, c.patch = .obj patch ∧ ∀ f ∈ names patch, f ∈ m.fieldNames)
  limit : Between 1 1000 c.limit
  offset : AtLeast 0 c.offset

/-- The parts of an action name models and actions that exist, and its numbers are in bounds. -/
structure Action.Closed (models : List Model) (names : List String) (a : Action) : Prop where
  http : ∀ c, a.http = some c → Bounded c.retries c.timeout
  llm : ∀ c, a.llm = some c → Bounded c.retries c.timeout
  db : ∀ c, a.db = some c → c.Closed models
  value : ∀ c, a.value = some c → Between 100 599 c.status
  flow : ∀ f, a.flow = some f → f.Sound ∧ ∀ s ∈ f.steps, StepPassed names a.name s

/-- Everything that an application refers to is there. -/
structure App.Closed (app : App) : Prop where
  modelNames : (app.models.map Model.name).Nodup
  fields : ∀ m ∈ app.models, m.fields ≠ []
  refs : ∀ m ∈ app.models, ∀ f ∈ m.fields, ∀ target, f.2 = .ref target →
    target ∈ app.models.map Model.name
  crud : ∀ name ∈ app.crud, name ∈ app.models.map Model.name
  pages : ∀ p ∈ app.pages, ∃ m ∈ app.models, m.name = p.model ∧ p.Fits m
  actionNames : (app.actions.map Action.name).Nodup
  actions : ∀ a ∈ app.actions, a.Closed app.models (app.actions.map Action.name)
  hooks : ∀ h ∈ app.hooks, HookPassed app.models (app.actions.map Action.name) h

/-! ## Parts of actions -/

variable {raw : Json.Members}

theorem checkHttp_eq_ok {c : HttpCall} (h : checkHttp raw = .ok c) : Bounded c.retries c.timeout := by
  unfold checkHttp at h
  simp only [except_bind_eq_ok_iff] at h
  obtain ⟨http, -, url, -, hs, -, timeout, hh, n, hhr, expect, -, h⟩ := h
  have hb : Bounded n timeout := ⟨between_of_checkRetries hhr, atLeast_of_checkTimeout hh⟩
  split at h
  · cases h
    exact hb
  · obtain ⟨verb, -, ⟨⟩⟩ := of_bind_ok h
    exact hb

theorem checkLlm_eq_ok {c : LlmCall} (h : checkLlm raw = .ok c) : Bounded c.retries c.timeout := by
  unfold checkLlm at h
  simp -zeta only [except_bind_eq_ok_iff] at h
  obtain ⟨llm, -, provider, -, baseUrl, -, model, -, apiKeyEnv, -, rawMessages, -, msgs, -,
    temperature, -, h⟩ := h
  extract_lets counted at h
  have hm : ∀ maxTokens, counted maxTokens = .ok c → Bounded c.retries c.timeout := by
    intro maxTokens h
    unfold counted at h
    simp only [except_bind_eq_ok_iff] at h
    obtain ⟨timeout, hh, n, hhr, output, -, ⟨⟩⟩ := h
    exact ⟨between_of_checkRetries hhr, atLeast_of_checkTimeout hh⟩
  split at h
  · exact hm .null h
  · obtain ⟨maxTokens, -, h⟩ := of_bind_ok h
    exact hm maxTokens h

theorem checkFieldObject_eq_ok {m : Model} {part : String} {v : Json} {ms : Json.Members}
    (h : checkFieldObject m part v = .ok ms) : v = .obj ms ∧ ∀ f ∈ names ms, f ∈ m.fieldNames := by
  unfold checkFieldObject at h
  split at h
  · obtain ⟨_, hk, ⟨⟩⟩ := of_bind_ok h
    exact ⟨rfl, mem_of_checkFields hk⟩
  · cases h

theorem checkDbNeeds_eq_ok {m : Model} {op : String} {id data patch : Json}
    (h : checkDbNeeds m op id data patch = .ok ()) :
    (op = "insert" → ∃ ms, data = .obj ms ∧ ∀ f ∈ names ms, f ∈ m.fieldNames) ∧
    (op = "update" → ∃ ms, patch = .obj ms ∧ ∀ f ∈ names ms, f ∈ m.fieldNames) := by
  constructor
  · rintro rfl
    obtain ⟨_, -, h⟩ := of_bind_ok h
    obtain ⟨ms, hk, h⟩ := of_bind_ok h
    exact ⟨ms, checkFieldObject_eq_ok hk⟩
  · rintro rfl
    obtain ⟨_, -, h⟩ := of_bind_ok h
    obtain ⟨_, -, h⟩ := of_bind_ok h
    obtain ⟨ms, hk, h⟩ := of_bind_ok h
    exact ⟨ms, checkFieldObject_eq_ok hk⟩

theorem checkDb_eq_ok {models : List Model} {c : DbCall} (h : checkDb models raw = .ok c) :
    c.Closed models := by
  obtain ⟨db, -, h⟩ := of_bind_ok h
  obtain ⟨op, -, h⟩ := of_bind_ok h
  extract_lets id data patch chosen at h
  have hn : ∃ m ∈ models, chosen m = .ok c := by
    split at h
    · split at h
      next hf => exact ⟨_, (mem_of_findModel? hf).1, h⟩
      next => cases h
    · cases h
  obtain ⟨m, hm, h⟩ := hn
  unfold chosen at h
  simp only [except_bind_eq_ok_iff] at h
  obtain ⟨lim, -, off, -, orderBy, -, _, hlimit, _, hh, _, hne, ⟨⟩⟩ := h
  obtain ⟨hin, hu⟩ := checkDbNeeds_eq_ok hne
  have hl := eq_true_of_need hlimit
  have ho := eq_true_of_need hh
  refine ⟨⟨m, hm, rfl, fun hi => ?_, fun his => ?_⟩, ⟨lim, rfl, ?_⟩, ⟨off, rfl, ?_⟩⟩
  · obtain ⟨ms, hs, hk⟩ := hin hi
    exact ⟨ms, by simp only [hs]; rfl, hk⟩
  · obtain ⟨ms, hs, hk⟩ := hu his
    exact ⟨ms, by simp only [hs]; rfl, hk⟩
  · simpa using hl
  · simpa using ho

theorem checkConstant_eq_ok {c : Constant} (h : checkConstant raw = .ok c) : Between 100 599 c.status := by
  obtain ⟨v, -, h⟩ := of_bind_ok h
  split at h
  · cases h
  · obtain ⟨code, hh, h⟩ := of_bind_ok h
    obtain ⟨hs, n, hw, hb⟩ := of_asWhole hh
    split at h
    · cases h
      rw [hs]
      exact ⟨n, hw, by simpa using hb⟩
    · cases h

theorem ActionPassed.closed {ms : List Model} {adminPath : String} {ns : List String}
    {a : Action} (hp : ActionPassed ms adminPath ns raw a) : a.Closed ms ns where
  http c hpa := checkHttp_eq_ok (hp.http c hpa).2
  llm c hpa := checkLlm_eq_ok (hp.llm c hpa).2
  db c hpa := checkDb_eq_ok (hp.db c hpa).2
  value c hpa := checkConstant_eq_ok (hp.value c hpa).2
  flow f hpa := (checkFlow_eq_ok (hp.flow f hpa).2).imp_right fun hc s mem => (hc.2 s mem).passed

/-! ## Accepted applications -/

theorem mem_of_checkCrud {ns crud : List String} {v : Json}
    (h : checkCrud ns v = .ok crud) : ∀ name ∈ crud, name ∈ ns := by
  unfold checkCrud at h
  split at h
  · cases h
  · obtain ⟨_, hk, ⟨⟩⟩ := of_bind_ok h
    exact mem_of_checkFields hk

/-- An accepted application is closed. -/
theorem closed_of_accepted {spec : Json.Members} {app : App} (accepted : check spec = .ok app) :
    app.Closed := by
  obtain ⟨raw, modelNames, actionNames, passed⟩ := exists_passed accepted
  obtain ⟨rfl, modelsDiffer⟩ := passed.modelNames_eq
  obtain ⟨rfl, actionsDiffer⟩ := passed.actionNames_eq
  refine ⟨modelsDiffer, fun m hm => (modelPassed_of_accepted accepted hm).fields,
    fun m hm => (modelPassed_of_accepted accepted hm).refs, mem_of_checkCrud passed.crud,
    fun p hp => ?_, actionsDiffer, fun a ha => ?_, fun h hh => ?_⟩
  · obtain ⟨v, -, made⟩ := exists_of_mem_mapM passed.pages p hp
    exact checkPage_eq_ok made
  · obtain ⟨raw, fine⟩ := exists_actionPassed accepted ha
    exact fine.closed
  · obtain ⟨v, -, made⟩ := exists_of_mem_mapM passed.hooks h hh
    exact (checkHook_eq_ok made).1

/-! ## A library -/

def librarySpec : Json.Members := [
  ("db", .obj [("models", .arr [
    .obj [("name", .str "Author"), ("fields", .obj [("name", .str "text")])],
    .obj [("name", .str "Book"), ("fields", .obj [
      ("title", .str "text"), ("author", .str "ref:Author"), ("copies", .str "int")])]])]),
  ("api", .obj [
    ("crud", .arr [.str "Book"]),
    ("actions", .arr [
      .obj [("name", .str "fetch"), ("http", .obj [
        ("url", .str "http://localhost/books"), ("retries", .int 10)])],
      .obj [("name", .str "praise"), ("kind", .str "llm"), ("llm", .obj [
        ("temperature", .int 1), ("timeout_s", .int 1)])],
      .obj [("name", .str "buy"), ("kind", .str "db"), ("db", .obj [
        ("op", .str "insert"), ("model", .str "Book"), ("data", .obj [("copies", .int 1)]),
        ("limit", .int 1000)])],
      .obj [("name", .str "closed"), ("kind", .str "value"), ("value", .obj [
        ("data", .null), ("status", .int 599)])],
      .obj [("name", .str "stock"), ("kind", .str "flow"), ("flow", .obj [
        ("steps", .arr [
          .obj [("id", .str "a"), ("use", .str "fetch")],
          .obj [("id", .str "b"), ("use", .str "buy"), ("timeout_s", .int 1)]]),
        ("return_step", .str "b")])]]),
    ("hooks", .arr [.obj [
      ("model", .str "Book"), ("event", .str "after_create"), ("action", .str "praise"),
      ("writeback", .arr [.str "title"]), ("when_changed", .arr [.str "copies"])]])]),
  ("ui", .obj [("pages", .arr [.obj [
    ("path", .str "/books"), ("model", .str "Book"), ("fields", .arr [.str "title"]),
    ("default_sort", .str "author"), ("default_filters", .obj [("copies", .int 1)]),
    ("hidden_fields", .arr [.str "author"])]])])]

theorem exists_library : ∃ app, check librarySpec = .ok app ∧
    app.models.map Model.name = ["Author", "Book"] ∧
    app.actions.map kind = ["http", "llm", "db", "value", "flow"] ∧
    app.hooks.map Hook.action = ["praise"] ∧ app.pages.map Page.model = ["Book"] := by
  have hr : ((check librarySpec).toOption.map fun app =>
      (app.models.map Model.name, app.actions.map kind, app.hooks.map Hook.action,
        app.pages.map Page.model)) =
      some (["Author", "Book"], ["http", "llm", "db", "value", "flow"], ["praise"], ["Book"]) := by
    decide +kernel
  obtain ⟨app, ha, hp⟩ := exists_ok_of_toOption hr
  exact ⟨app, ha, by simpa using hp⟩

theorem library_closed : ∃ app, check librarySpec = .ok app ∧ app.Closed ∧
    app.models.map Model.name = ["Author", "Book"] ∧
    app.actions.map Action.kind = ["http", "llm", "db", "value", "flow"] ∧
    app.hooks.map Hook.action = ["praise"] ∧ app.pages.map Page.model = ["Book"] := by
  obtain ⟨app, accepted, parts⟩ := exists_library
  exact ⟨app, accepted, closed_of_accepted accepted, parts⟩

end Appwright.Spec

namespace Appwright.Spec

/-! ## Actions without their secrets

An action is shown with its fields, and each header's value is hidden. This works only for an action
that has a call to a service and one to a language model, which no accepted action has.
-/

section Shown

variable {a : Action} {call : HttpCall} {model : LlmCall} (http : a.http = some call)
  (llm : a.llm = some model)
include http llm

/-- What is shown of an action: its fields, and the names of its headers. -/
theorem exists_masked : ∃ v, a.masked? = some v ∧
    (∀ name, name ≠ "http" → v.get? name = a.toJson.get? name) ∧ ∃ shown, v.get? "http" = some shown ∧
      (∀ name, name ≠ "headers" → shown.get? name = call.toJson.get? name) ∧
      shown.get? "headers" = some (.obj (call.headers.map fun e => (e.1, .str "***"))) := by
  have hidden : ofTextEntries (call.headers.mapValues fun _ => "***") =
      .obj (call.headers.map fun e => (e.1, .str "***")) := by
    simp [ofTextEntries, Entries.mapValues]
  rw [Action.masked?, http, llm]
  refine ⟨_, rfl, fun name ho => ?_, _, rfl, fun name ho => ?_, ?_⟩
  · simp [Action.toJson, Json.get?, Entries.get?, ho.symm, llm]
  · simp [HttpCall.toJson, Json.get?, Entries.get?, ho.symm]
  · rw [← hidden]
    rfl

theorem masked?_congr {headers : Entries String} (hs : headers.map Prod.fst = call.headers.map Prod.fst) :
    { a with http := some { call with headers } }.masked? = a.masked? := by
  have hidden : (headers.mapValues fun _ => "***") = call.headers.mapValues fun _ => "***" := by
    have hn := congrArg (List.map fun name => (name, "***")) hs
    simpa [Entries.mapValues, Function.comp_def] using hn
  simp only [Action.masked?, http, llm, hidden]

end Shown

/-- An action with both calls is shown with its fields and the names of its headers, whatever their
values are. No accepted action is shown. -/
theorem masked?_hides_headers (a : Action) :
    (∀ call model, a.http = some call → a.llm = some model →
      (∃ v, a.masked? = some v ∧ (∀ name, name ≠ "http" → v.get? name = a.toJson.get? name) ∧
        ∃ shown, v.get? "http" = some shown ∧
          (∀ name, name ≠ "headers" → shown.get? name = call.toJson.get? name) ∧
          shown.get? "headers" = some (.obj (call.headers.map fun e => (e.1, .str "***")))) ∧
      ∀ headers : Entries String, headers.map Prod.fst = call.headers.map Prod.fst →
        { a with http := some { call with headers } }.masked? = a.masked?) ∧
    ∀ spec app, check spec = .ok app → a ∈ app.actions → a.masked? = none :=
  ⟨fun _ _ http llm => ⟨exists_masked http llm, fun _ => masked?_congr http llm⟩,
    fun _ _ => masked?_eq_none⟩

def relay : Action where
  name := "relay"
  http := some { url := "http://localhost", headers := [("Authorization", "secret")] }
  llm := some {}

theorem masked?_relay : ∃ v shown, relay.masked? = some v ∧ v.get? "http" = some shown ∧
    shown.get? "headers" = some (.obj [("Authorization", .str "***")]) ∧
    { relay with http := some { url := "http://localhost", headers := [("Authorization", "")] } }.masked? =
      some v := by
  obtain ⟨⟨v, found, -, shown, http, -, headers⟩, same⟩ :=
    (masked?_hides_headers relay).1 _ _ rfl rfl
  exact ⟨v, shown, found, http, headers, (same [("Authorization", "")] rfl).trans found⟩

/-- The actions of the library are of every kind, and none can be shown. -/
theorem library_not_shown : ∃ app, check librarySpec = .ok app ∧
    app.actions.map Action.kind = ["http", "llm", "db", "value", "flow"] ∧
    ∀ a ∈ app.actions, a.masked? = none := by
  obtain ⟨app, accepted, -, kinds, -⟩ := exists_library
  exact ⟨app, accepted, kinds, fun _ => masked?_eq_none accepted⟩

end Appwright.Spec
