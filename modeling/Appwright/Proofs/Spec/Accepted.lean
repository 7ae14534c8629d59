import Appwright.Proofs.Run
import Appwright.Spec.Check
import Appwright.Spec.Masked
import Mathlib.Data.List.Nodup

/-!
# Accepted specifications

What an application has by being read from a specification that was accepted. The specification is
checked part by part, and for each kind of part one lemma says what a part that passed is like: a
model, a page, a hook, an action. Names of models and of actions were collected before
(`names_eq_of_fresh`), so that parts can be checked against them.
-/

namespace Appwright

open List

theorem exists_of_mem_mapM {ε α β : Type} {f : α → Except ε β} {xs : List α} {ys : List β}
    (h : xs.mapM f = .ok ys) : ∀ y ∈ ys, ∃ x ∈ xs, f x = .ok y :=
  fun _ hy => exists_of_mem_right (mapM_eq_ok_iff.1 h) hy

namespace Spec

structure Parts where
  models : List Json
  crud : Json
  pages : List Json
  actions : List Json
  hooks : List Json

structure Passed (app : App) (raw : Parts) (modelNames actionNames : List String) : Prop where
  modelsNamed : checkModelNames [] raw.models = .ok modelNames
  models : raw.models.mapM (checkModel modelNames) = .ok app.models
  crud : checkCrud modelNames raw.crud = .ok app.crud
  pages : raw.pages.mapM (checkPage app.models) = .ok app.pages
  actionsNamed : checkActionNames [] raw.actions = .ok actionNames
  actions : raw.actions.mapM (checkAction app.models app.adminPath actionNames) = .ok app.actions
  hooks : raw.hooks.mapM (checkHook app.models actionNames) = .ok app.hooks

theorem exists_passed {spec : Json.Members} {app : App} (ha : check spec = .ok app) :
    ∃ raw mns ans, Passed app raw mns ans := by
  unfold check at ha
  simp only [except_bind_eq_ok_iff] at ha
  obtain ⟨ver, -, name, -, db, -, dbPath, -, rawModels, -, mns, hhm, models,
    hhmo, api, -, crud, hcrud, rawActions, -, rawHooks, -, ui, -, rawPages, -, admin, -, look, -,
    ps, hpages, ans, hh, actions, hha, hooks, hhooks, ⟨⟩⟩ := ha
  exact ⟨⟨rawModels, _, rawPages, rawActions, rawHooks⟩, mns, ans,
    hhm, hhmo, hcrud, hpages, hh, hha, hhooks⟩

/-! ## Members -/

variable {part adminPath : String} {v w : Json} {models : List Model} {m : Model} {a : Action}
  {ns seen : List String} {rest : List Json}

theorem of_asText {need : String} {test : String → Bool} {s : String}
    (h : asText part need test v = .ok s) : v = .str s ∧ test s := by
  unfold asText at h
  split at h
  · split at h
    · rename_i ok
      cases h
      exact ⟨rfl, ok⟩
    · cases h
  · cases h

theorem of_asObject {need : String} {ms : Json.Members}
    (h : asObject part need v = .ok ms) : v = .obj ms := by
  unfold asObject at h
  split at h
  · cases h
    rfl
  · cases h

theorem eq_true_of_need {cond : Bool} {e : Error} (h : need cond e = .ok ()) : cond := by
  unfold need at h
  split at h
  · assumption
  · cases h

def Between (low high : Int) (v : Json) : Prop :=
  ∃ n, v.whole? = some n ∧ low ≤ n ∧ n ≤ high

def AtLeast (low : Int) (v : Json) : Prop :=
  ∃ n, v.whole? = some n ∧ low ≤ n

theorem of_asWhole {need : String} {test : Int → Bool} (h : asWhole part need test v = .ok w) :
    w = v ∧ ∃ n, v.whole? = some n ∧ test n := by
  unfold asWhole at h
  split at h
  · rename_i n hw
    split at h
    · rename_i ok
      cases h
      exact ⟨rfl, n, hw, ok⟩
    · cases h
  · cases h

theorem between_of_checkRetries (h : checkRetries part v = .ok w) : Between 0 10 w := by
  obtain ⟨rfl, n, hw, ok⟩ := of_asWhole h
  exact ⟨n, hw, by simpa using ok⟩

theorem atLeast_of_checkTimeout (h : checkTimeout part v = .ok w) : AtLeast 1 w := by
  obtain ⟨rfl, n, hw, ok⟩ := of_asWhole h
  exact ⟨n, hw, by simpa using ok⟩

theorem mem_of_checkFields {complain : String → Error} {known fs : List String}
    (h : checkFields complain known fs = .ok ()) : ∀ f ∈ fs, f ∈ known := by
  induction fs with
  | nil => exact nofun
  | cons g rest ih =>
    unfold checkFields at h
    split at h
    · rename_i hfo
      intro f hf
      rcases mem_cons.1 hf with rfl | hf
      · exact contains_iff_mem.1 hfo
      · exact ih h f hf
    · cases h

theorem mem_of_findModel? {name : String} (hf : findModel? name models = some m) :
    m ∈ models ∧ m.name = name := by
  refine ⟨mem_of_find?_eq_some hf, ?_⟩
  have hs := find?_some hf
  simpa using hs

/-! ## Models -/

structure ModelPassed (names : List String) (m : Model) : Prop where
  name : Text.isIdentLine m.name = true
  fields : m.fields ≠ []
  fieldNames : ∀ f ∈ m.fields, Text.isIdentLine f.1 = true
  known : ∀ f ∈ m.fields, ∀ type, f.2 ≠ .other type
  refs : ∀ f ∈ m.fields, ∀ target, f.2 = .ref target → target ∈ names

theorem checkFieldType_eq_ok {model fd : String} {type : FieldType}
    (h : checkFieldType ns model fd v = .ok type) :
    (∀ b, type ≠ .other b) ∧ ∀ tgt, type = .ref tgt → tgt ∈ ns := by
  unfold checkFieldType at h
  split at h
  · split at h
    · obtain ⟨_, -, h⟩ := of_bind_ok h
      obtain ⟨_, hk, ⟨⟩⟩ := of_bind_ok h
      have mem := contains_iff_mem.1 (eq_true_of_need hk)
      exact ⟨fun _ h => (by cases h), fun _ h => (by cases h; exact mem)⟩
    · cases h
    · rename_i hno hn
      cases h
      exact ⟨fun b hs => hn b hs, fun tgt hs => absurd hs (hno tgt)⟩
  · cases h

theorem checkModel_eq_ok (h : checkModel ns v = .ok m) : ∃ ms, v = .obj ms ∧
      asName "model.name" (member "name" .null ms) = .ok m.name ∧ ModelPassed ns m := by
  unfold checkModel at h
  simp only [except_bind_eq_ok_iff] at h
  obtain ⟨ms, hhm, name, hname, _, hident, h⟩ := h
  have hi := eq_true_of_need hident
  split at h
  · obtain ⟨fs, hh, ⟨⟩⟩ := of_bind_ok h
    have he : ∀ f ∈ fs, Text.isIdentLine f.1 ∧ (∀ type, f.2 ≠ .other type) ∧
        ∀ tgt, f.2 = .ref tgt → tgt ∈ ns := by
      intro f hf
      obtain ⟨raw, -, hm⟩ := exists_of_mem_mapM hh f hf
      unfold checkField at hm
      simp only [except_bind_eq_ok_iff] at hm
      obtain ⟨_, -, _, hident, type, htype, ⟨⟩⟩ := hm
      exact ⟨eq_true_of_need hident, checkFieldType_eq_ok htype⟩
    have some : fs ≠ [] := by
      rw [mapM_cons] at hh
      obtain ⟨_, -, hh⟩ := of_bind_ok hh
      obtain ⟨_, -, ⟨⟩⟩ := of_bind_ok hh
      exact cons_ne_nil _ _
    exact ⟨ms, of_asObject hhm, hname, hi, some, fun f hf => (he f hf).1,
      fun f hf => (he f hf).2.1, fun f hf => (he f hf).2.2⟩
  · cases h

/-! ## Pages -/

structure Page.Fits (p : Page) (m : Model) : Prop where
  fields : ∀ f ∈ p.fields.getD [], f ∈ m.fieldNames
  sort : ∀ f, p.sort = some f → f ≠ "" → f ≠ "id" → f ∈ m.fieldNames
  filters : ∀ f ∈ (p.filters.getD []).names, f ∈ m.fieldNames
  visible : ∀ f ∈ p.visible.getD [], f ∈ m.fieldNames
  hidden : ∀ f ∈ p.hidden.getD [], f ∈ m.fieldNames

theorem checkPage_eq_ok {page : Page} (h : checkPage models v = .ok page) :
    ∃ m ∈ models, m.name = page.model ∧ page.Fits m := by
  obtain ⟨raw, -, h⟩ := of_bind_ok h
  obtain ⟨path, -, h⟩ := of_bind_ok h
  extract_lets rest at h
  have hsh : ∃ m ∈ models, rest m = .ok page := by
    split at h
    · split at h
      next hfo => exact ⟨_, (mem_of_findModel? hfo).1, h⟩
      next => cases h
    · cases h
  obtain ⟨m, hm, h⟩ := hsh
  unfold rest at h
  simp only [except_bind_eq_ok_iff] at h
  obtain ⟨title, -, fs, -, qy, -, sort, -, dir, -, filters, -, visible, -, hidden, -,
    _, hhf, _, hsort, _, hh, _, hhv, _, hhh, ⟨⟩⟩ := h
  refine ⟨m, hm, rfl, mem_of_checkFields hhf, ?_, ?_, mem_of_checkFields hhv, mem_of_checkFields hhh⟩
  · rintro f rfl hfu hn
    have hs := eq_true_of_need hsort
    simpa [hfu, hn] using hs
  · intro f hf
    refine mem_of_checkFields hh f ?_
    -- Filters without entries are left out of the page.
    cases filters with
    | none => exact hf
    | some es =>
      cases es with
      | nil | cons => exact hf

/-! ## Hooks -/

structure HookPassed (models : List Model) (actions : List String) (h : Hook) : Prop where
  model : ∃ m ∈ models, m.name = h.model ∧ (∀ f ∈ h.writeback.getD [], f ∈ m.fieldNames) ∧
    ∀ f ∈ h.whenChanged.getD [], f ∈ m.fieldNames
  action : h.action ∈ actions

theorem checkHook_eq_ok {actions : List String} {hook : Hook} (h : checkHook models actions v = .ok hook) :
    HookPassed models actions hook ∧ ∃ m, checkHookCondition m hook.condition = .ok () := by
  obtain ⟨raw, -, h⟩ := of_bind_ok h
  extract_lets cond waiting at h
  have hw : ∃ m ∈ models, waiting m = .ok hook := by
    split at h
    · split at h
      next hf => exact ⟨_, (mem_of_findModel? hf).1, h⟩
      next => cases h
    · cases h
  obtain ⟨m, hm, h⟩ := hw
  obtain ⟨event, -, h⟩ := of_bind_ok h
  extract_lets running at h
  have hr : ∃ name ∈ actions, running name = .ok hook := by
    split at h
    · rename_i name _
      obtain ⟨_, hk, h⟩ := of_bind_ok h
      exact ⟨name, contains_iff_mem.1 (eq_true_of_need hk), h⟩
    · cases h
  obtain ⟨name, hname, h⟩ := hr
  unfold running at h
  simp only [except_bind_eq_ok_iff] at h
  obtain ⟨mode, -, writeback, -, _, hh, whenChanged, -, _, hhch, _, hhc, ⟨⟩⟩ := h
  refine ⟨⟨⟨m, hm, rfl, ?_, ?_⟩, hname⟩, m, hhc⟩
  · exact mem_of_checkFields hh
  · exact mem_of_checkFields hhch

/-! ## Actions -/

/-- What an action that passed is like. A part that it has is the part of its kind. -/
structure ActionPassed (models : List Model) (adminPath : String) (names : List String)
    (raw : Json.Members) (a : Action) : Prop where
  name : asName "action.name" (member "name" .null raw) = .ok a.name
  method : a.method ∈ methods
  path : Text.startsWith a.path "/" = true
  free : checkActionPath adminPath (models.map Model.name) a.path = .ok ()
  auth : a.auth ∈ accessLevels
  http : ∀ c, a.http = some c → a.kind = "http" ∧ checkHttp raw = .ok c
  llm : ∀ c, a.llm = some c → a.kind = "llm" ∧ checkLlm raw = .ok c
  db : ∀ c, a.db = some c → a.kind = "db" ∧ checkDb models raw = .ok c
  value : ∀ c, a.value = some c → a.kind = "value" ∧ checkConstant raw = .ok c
  flow : ∀ f, a.flow = some f → a.kind = "flow" ∧ checkFlow names a.name raw = .ok f

theorem checkMethod_eq_ok {verb : String} (h : checkMethod part v = .ok verb) : verb ∈ methods := by
  obtain ⟨s, hw, ⟨⟩⟩ := of_bind_ok h
  exact contains_iff_mem.1 (of_asText hw).2

theorem checkAction_eq_ok {act : Action}
    (h : checkAction models adminPath ns v = .ok act) :
    ∃ raw, v = .obj raw ∧ ActionPassed models adminPath ns raw act := by
  unfold checkAction at h
  simp only [except_bind_eq_ok_iff] at h
  obtain ⟨raw, hraw, name, hname, kind, hkind, verb, hh, path, hpath, auth, hauth, _, hfree,
    h⟩ := h
  have one : kind ∈ kinds := contains_iff_mem.1 (of_asText hkind).2
  have hk : auth ∈ accessLevels := contains_iff_mem.1 (of_asText hauth).2
  refine ⟨raw, of_asObject hraw, ?_⟩
  split at h
  case h_5 http llm db hv =>
    obtain ⟨part, hm, ⟨⟩⟩ := of_bind_ok h
    have flow : kind = "flow" := by
      fin_cases one
      · exact absurd rfl db
      · rfl
      · exact absurd rfl http
      · exact absurd rfl llm
      · exact absurd rfl hv
    refine ⟨hname, checkMethod_eq_ok hh, (of_asText hpath).2, hfree, hk,
      ?_, ?_, ?_, ?_, ?_⟩ <;> intro b hg <;> cases hg
    exact ⟨flow, hm⟩
  all_goals
    obtain ⟨part, hm, ⟨⟩⟩ := of_bind_ok h
    refine ⟨hname, checkMethod_eq_ok hh, (of_asText hpath).2, hfree, hk,
      ?_, ?_, ?_, ?_, ?_⟩ <;> intro b hg <;> cases hg
    exact ⟨rfl, hm⟩

/-! ## Names -/

/-- Names that are collected one after another, each of them new, are those of the items that are
made after that. -/
theorem names_eq_of_fresh {α : Type} {collect : List String → List Json → Checked (List String)}
    {make : Json → Checked α} {name : α → String} (nil : ∀ seen, collect seen [] = .ok seen.reverse)
    (cons : ∀ {seen v rest ns x}, collect seen (v :: rest) = .ok ns → make v = .ok x →
      name x ∉ seen ∧ collect (name x :: seen) rest = .ok ns) {raw : List Json} {xs : List α}
    (hc : collect seen raw = .ok ns) (hm : raw.mapM make = .ok xs)
    (hf : seen.Nodup) : ns = seen.reverse ++ xs.map name ∧ ns.Nodup := by
  induction raw generalizing seen xs with
  | nil =>
    rw [mapM_nil] at hm
    cases hm
    rw [nil] at hc
    cases hc
    exact ⟨by simp, nodup_reverse.2 hf⟩
  | cons v raw ih =>
    rw [mapM_cons] at hm
    obtain ⟨x, hx, hm⟩ := of_bind_ok hm
    obtain ⟨rest, hrest, ⟨⟩⟩ := of_bind_ok hm
    obtain ⟨new, hc⟩ := cons hc hx
    obtain ⟨hs, hd⟩ := ih hc hrest (nodup_cons.2 ⟨new, hf⟩)
    exact ⟨by simpa using hs, hd⟩

theorem checkModelNames_cons {acc : List String}
    (h : checkModelNames seen (v :: rest) = .ok acc) (hm : checkModel ns v = .ok m) :
    m.name ∉ seen ∧ checkModelNames (m.name :: seen) rest = .ok acc := by
  obtain ⟨ms, rfl, hn, -⟩ := checkModel_eq_ok hm
  obtain ⟨_, hh, h⟩ := of_bind_ok h
  cases hh
  obtain ⟨_, hname, h⟩ := of_bind_ok h
  cases hn.symm.trans hname
  obtain ⟨_, -, h⟩ := of_bind_ok h
  obtain ⟨_, hnew, h⟩ := of_bind_ok h
  exact ⟨by simpa using eq_true_of_need hnew, h⟩

theorem checkActionNames_cons {acc : List String} (h : checkActionNames seen (v :: rest) = .ok acc)
    (hm : checkAction models adminPath ns v = .ok a) :
    a.name ∉ seen ∧ checkActionNames (a.name :: seen) rest = .ok acc := by
  obtain ⟨raw, rfl, passed⟩ := checkAction_eq_ok hm
  obtain ⟨_, hh, h⟩ := of_bind_ok h
  cases hh
  obtain ⟨_, hname, h⟩ := of_bind_ok h
  cases passed.name.symm.trans hname
  obtain ⟨_, hnew, h⟩ := of_bind_ok h
  exact ⟨by simpa using eq_true_of_need hnew, h⟩

namespace Passed

variable {app : App} {raw : Parts} {mns ans : List String}
  (passed : Passed app raw mns ans)

include passed

theorem modelNames_eq : mns = app.models.map Model.name ∧ mns.Nodup := by
  simpa using names_eq_of_fresh (fun _ => rfl) checkModelNames_cons passed.modelsNamed
    passed.models nodup_nil

theorem actionNames_eq : ans = app.actions.map Action.name ∧ ans.Nodup := by
  simpa using names_eq_of_fresh (fun _ => rfl) checkActionNames_cons passed.actionsNamed
    passed.actions List.nodup_nil

end Passed

/-! ## Accepted applications -/

variable {spec : Json.Members} {app : App} (hac : check spec = .ok app)
include hac

theorem modelPassed_of_accepted (hm : m ∈ app.models) :
    ModelPassed (app.models.map Model.name) m := by
  obtain ⟨_, _, _, passed⟩ := exists_passed hac
  obtain ⟨v, -, hma⟩ := exists_of_mem_mapM passed.models m hm
  obtain ⟨_, -, -, hmo⟩ := checkModel_eq_ok hma
  rw [← passed.modelNames_eq.1]
  exact hmo

theorem exists_actionPassed (ha : a ∈ app.actions) :
    ∃ raw, ActionPassed app.models app.adminPath (app.actions.map Action.name) raw a := by
  obtain ⟨_, _, _, passed⟩ := exists_passed hac
  obtain ⟨v, -, hm⟩ := exists_of_mem_mapM passed.actions a ha
  obtain ⟨raw, -, hact⟩ := checkAction_eq_ok hm
  rw [← passed.actionNames_eq.1]
  exact ⟨raw, hact⟩

theorem auth_mem_accessLevels (ha : a ∈ app.actions) :
    a.auth ∈ accessLevels := by
  obtain ⟨_, passed⟩ := exists_actionPassed hac ha
  exact passed.auth

theorem masked?_eq_none (ha : a ∈ app.actions) : a.masked? = none := by
  obtain ⟨_, passed⟩ := exists_actionPassed hac ha
  unfold Action.masked?
  split
  · rename_i http llm hhttp hllm
    have hk := (passed.http http hhttp).1.symm.trans (passed.llm llm hllm).1
    exact absurd hk (by decide)
  · rfl

theorem exists_model_of_page {p : Page} (hp : p ∈ app.pages) :
    ∃ m ∈ app.models, m.name = p.model ∧ ∀ f ∈ p.fields.getD [], f ∈ m.fieldNames := by
  obtain ⟨_, _, _, passed⟩ := exists_passed hac
  obtain ⟨v, -, hma⟩ := exists_of_mem_mapM passed.pages p hp
  obtain ⟨m, hm, hn, hf⟩ := checkPage_eq_ok hma
  exact ⟨m, hm, hn, hf.fields⟩

theorem nodup_model_names : (app.models.map Model.name).Nodup := by
  obtain ⟨_, _, _, passed⟩ := exists_passed hac
  obtain ⟨rfl, hd⟩ := passed.modelNames_eq
  exact hd

theorem nodup_action_names : (app.actions.map Action.name).Nodup := by
  obtain ⟨_, _, _, passed⟩ := exists_passed hac
  obtain ⟨rfl, hd⟩ := passed.actionNames_eq
  exact hd

theorem hookPassed_of_accepted {h : Hook} (hh : h ∈ app.hooks) :
    HookPassed app.models (app.actions.map Action.name) h ∧
      ∃ m, checkHookCondition m h.condition = .ok () := by
  obtain ⟨_, _, _, passed⟩ := exists_passed hac
  obtain ⟨v, -, hm⟩ := exists_of_mem_mapM passed.hooks h hh
  rw [← passed.actionNames_eq.1]
  exact checkHook_eq_ok hm

end Spec

end Appwright

namespace Appwright.Spec

/-! ## Flows

The steps of an accepted flow have different ids, and the step whose result it returns is one of
them. Each step uses an action that exists and is not the flow itself.
-/

structure Flow.Sound (flow : Flow) : Prop where
  ids : (flow.steps.map Step.id).Nodup
  returns : ∀ r, flow.returnStep = some r → r ≠ "" ∧ r ∈ flow.steps.map Step.id

/-- What a step of an action's flow is like if it passed, where some names are those of actions. -/
structure StepPassed (actions : List String) (self : String) (s : Step) : Prop where
  use : s.use ∈ actions
  other : s.use ≠ self
  retries : Between 0 10 s.retries
  timeout : s.timeout = .null ∨ AtLeast 1 s.timeout

def settingNames : Json → List String
  | .obj members => Entries.names members
  | _ => []

/-- Settings are null, or an object whose names passed the check of names. -/
structure Settings (v : Json) : Prop where
  kind : v = .null ∨ ∃ members, v = .obj members
  names : ∀ name ∈ settingNames v, Text.isIdentLine name = true

/-- What a step of a flow that passed has as it was written: its names, and what follows a failure. -/
structure StepWritten (s : Step) : Prop where
  id : Text.isIdentLine s.id = true
  assign : Settings s.assign
  onError : ∀ mode, s.onError = some mode → mode ∈ ["stop", "continue", "return"]

theorem checkNames_eq_ok {kind part : String} {names : List String}
    (h : checkNames kind part names = .ok ()) : ∀ name ∈ names, Text.isIdentLine name := by
  induction names with
  | nil => exact nofun
  | cons name rest ih =>
    rw [checkNames] at h
    obtain ⟨_, -, h⟩ := of_bind_ok h
    obtain ⟨_, hi, h⟩ := of_bind_ok h
    exact List.forall_mem_cons.2 ⟨eq_true_of_need hi, ih h⟩

theorem checkSettings_eq_ok {kind part : String} {v w : Json}
    (h : checkSettings kind part v = .ok w) : Settings w := by
  unfold checkSettings at h
  split at h
  · cases h
    exact ⟨.inl rfl, nofun⟩
  · obtain ⟨_, hn, ⟨⟩⟩ := of_bind_ok h
    exact ⟨.inr ⟨_, rfl⟩, checkNames_eq_ok hn⟩
  · cases h

structure StepChecked (actions : List String) (flow : String) (s : Step) : Prop where
  passed : StepPassed actions flow s
  form : Condition.checkForm s.condition = .ok ()
  written : StepWritten s

variable {self : String} {flow : Flow} {a : Action} {actions : List String}

theorem checkStep_eq_ok {seen : List String} {v : Json} {step : Step}
    (h : checkStep actions self seen v = .ok step) : step.id ∉ seen ∧ StepChecked actions self step := by
  obtain ⟨raw, -, h⟩ := of_bind_ok h
  obtain ⟨id, -, h⟩ := of_bind_ok h
  obtain ⟨_, hident, h⟩ := of_bind_ok h
  obtain ⟨_, hfresh, h⟩ := of_bind_ok h
  obtain ⟨use, -, h⟩ := of_bind_ok h
  obtain ⟨_, hother, h⟩ := of_bind_ok h
  obtain ⟨_, hknown, h⟩ := of_bind_ok h
  obtain ⟨_, hform, h⟩ := of_bind_ok h
  obtain ⟨retries, hhr, h⟩ := of_bind_ok h
  have hf : id ∉ seen := by
    have := eq_true_of_need hfresh
    simpa using this
  have ho : use ≠ self := by
    have := eq_true_of_need hother
    simpa using this
  have hk : use ∈ actions := List.contains_iff_mem.1 (eq_true_of_need hknown)
  obtain ⟨count, hw, hb⟩ := between_of_checkRetries hhr
  -- Members that may be missing are read in three branches, each of which goes on with the next.
  extract_lets num timed at h
  have hke : ∀ {v : Json} {n : Int}, v.whole? = some n → (num v).whole? = some n := by
    intro v n hw
    unfold num
    rw [hw]
    rfl
  have hm : ∀ timeout, timeout = .null ∨ AtLeast 1 timeout → timed timeout = .ok step →
      step.id ∉ seen ∧ StepChecked actions self step := by
    intro timeout hh h
    unfold timed at h
    extract_lets placed at h
    have hm : ∀ parallel, placed parallel = .ok step → step.id ∉ seen ∧ StepChecked actions self step := by
      intro parallel h
      unfold placed at h
      extract_lets ended at h
      have hm : ∀ onError : Option String,
          (∀ mode, onError = some mode → mode ∈ ["stop", "continue", "return"]) →
          ended onError = .ok step → step.id ∉ seen ∧ StepChecked actions self step := by
        intro onError hmode h
        obtain ⟨assign, hha, ⟨⟩⟩ := of_bind_ok h
        refine ⟨hf, ⟨hk, ho, ⟨count, hke hw, hb⟩, ?_⟩, mapError_eq_ok hform,
          eq_true_of_need hident, checkSettings_eq_ok hha, hmode⟩
        rcases hh with rfl | ⟨seconds, hw, hbo⟩
        · exact .inl rfl
        · exact .inr ⟨seconds, hke hw, hbo⟩
      split at h
      · exact hm none (fun mode hg => absurd hg (by simp)) h
      · obtain ⟨onError, hg, h⟩ := of_bind_ok h
        refine hm onError (fun mode hs => ?_) h
        obtain ⟨word, hr, rfl⟩ := except_map_eq_ok hg
        cases hs
        exact List.contains_iff_mem.1 (of_asText hr).2
    split at h <;> (obtain ⟨parallel, -, h⟩ := of_bind_ok h; exact hm parallel h)
  split at h
  · exact hm .null (.inl rfl) h
  · obtain ⟨timeout, hh, h⟩ := of_bind_ok h
    exact hm timeout (.inr (atLeast_of_checkTimeout hh)) h

theorem checkSteps_eq_ok {seen : List String} {raw : List Json} {ss : List Step}
    (h : checkSteps actions self seen raw = .ok ss) :
    (ss.map Step.id).Nodup ∧ (∀ id ∈ ss.map Step.id, id ∉ seen) ∧ ∀ s ∈ ss, StepChecked actions self s := by
  induction raw generalizing seen ss with
  | nil =>
    cases h
    exact ⟨List.nodup_nil, nofun, nofun⟩
  | cons v raw ih =>
    obtain ⟨step, first, h⟩ := of_bind_ok h
    obtain ⟨rest, hl, ⟨⟩⟩ := of_bind_ok h
    obtain ⟨new, passed⟩ := checkStep_eq_ok first
    obtain ⟨hd, hf, ho⟩ := ih hl
    rw [List.map_cons]
    refine ⟨List.nodup_cons.2 ⟨fun mem => hf _ mem List.mem_cons_self, hd⟩, ?_,
      List.forall_mem_cons.2 ⟨passed, ho⟩⟩
    intro id mem
    rcases List.mem_cons.1 mem with rfl | mem
    · exact new
    · exact fun old => hf id mem (List.mem_cons_of_mem _ old)

theorem checkFlow_eq_ok {raw : Json.Members} (h : checkFlow actions self raw = .ok flow) :
    flow.Sound ∧ Settings flow.vars ∧ ∀ s ∈ flow.steps, StepChecked actions self s := by
  obtain ⟨ms, -, h⟩ := of_bind_ok h
  obtain ⟨vars, hvars, h⟩ := of_bind_ok h
  extract_lets ended at h
  have hre {ss : List Step} (h : ended ss = .ok flow) : flow.steps = ss ∧ flow.vars = vars ∧
        ∀ r, flow.returnStep = some r → r ≠ "" ∧ r ∈ ss.map Step.id := by
    unfold ended at h
    split at h
    · cases h
      exact ⟨rfl, rfl, fun r none => absurd none (by simp)⟩
    · obtain ⟨id, hn, h⟩ := of_bind_ok h
      obtain ⟨_, hk, ⟨⟩⟩ := of_bind_ok h
      have hfu := (of_asText hn).2
      have hf := eq_true_of_need hk
      simp only [List.any_eq_true, beq_iff_eq] at hf
      refine ⟨rfl, rfl, fun r hr => ?_⟩
      cases hr
      exact ⟨by rintro rfl; exact absurd hfu (by decide), List.mem_map.2 hf⟩
  split at h
  · obtain ⟨ss, hc, h⟩ := of_bind_ok h
    obtain ⟨rfl, rfl, hr⟩ := hre h
    obtain ⟨hd, -, passed⟩ := checkSteps_eq_ok hc
    exact ⟨⟨hd, hr⟩, checkSettings_eq_ok hvars, passed⟩
  · cases h

variable {spec : Json.Members} {app : App} (hac : check spec = .ok app) (ha : a ∈ app.actions)
  (part : a.flow = some flow)
include hac ha part

theorem sound_of_accepted : a.kind = "flow" ∧ flow.Sound := by
  obtain ⟨raw, passed⟩ := exists_actionPassed hac ha
  obtain ⟨hk, hc⟩ := passed.flow flow part
  exact ⟨hk, (checkFlow_eq_ok hc).1⟩

theorem flowChecked_of_accepted :
    Settings flow.vars ∧ ∀ s ∈ flow.steps, StepChecked (app.actions.map Action.name) a.name s := by
  obtain ⟨raw, passed⟩ := exists_actionPassed hac ha
  exact (checkFlow_eq_ok (passed.flow flow part).2).2

theorem stepPassed_of_accepted {s : Step} (hs : s ∈ flow.steps) :
    StepPassed (app.actions.map Action.name) a.name s ∧ Condition.checkForm s.condition = .ok () := by
  have hc := (flowChecked_of_accepted hac ha part).2 s hs
  exact ⟨hc.passed, hc.form⟩

end Appwright.Spec
