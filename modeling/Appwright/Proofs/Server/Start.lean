import Appwright.Proofs.Entries
import Appwright.Proofs.Spec.Accepted
import Appwright.Server.Basic

/-!
# Servers for accepted specifications

A server that could be started for an application holds that application, its models and actions by
name, and the key of the environment. What an accepted specification guarantees is then known of
the server.
-/

namespace Appwright

open Spec List

namespace Server

def Built (setup : Setup) : Prop :=
  ∃ spec app environment files token session first, check spec = .ok app ∧
    start app environment files token session = .ok (setup, first)

structure Holds (setup : Setup) (app : App) (environment : Outbound.Environment)
    (token : String) : Prop where
  app_eq : setup.app = app
  environment_eq : setup.environment = environment
  models_eq : setup.models = Entries.ofPairs (app.models.map fun m => (m.name, m))
  actions_eq : setup.actions = Entries.ofPairs (app.actions.map fun a => (a.name, a))
  token_eq : setup.token = token
  apiKey_eq : setup.apiKey = environment.get? "VIBEWEB_API_KEY"

variable {env : Outbound.Environment} {first : State} {sess : Outbound.Session} {app : App}
  {files : Files} {tok : String} {su : Setup} {spec : Json.Members}

theorem holds_of_start
    (hs : start app env files tok sess = .ok (su, first)) : Holds su app env tok := by
  unfold start at hs
  cases hp : isStorePath files app.dbPath with
  | false =>
    rw [hp] at hs
    cases hs
  | true =>
    cases he : (Store.ensure app.models).run {} with
    | error e store =>
      rw [hp, he] at hs
      cases hs
    | ok _ store =>
      rw [hp, he] at hs
      obtain ⟨_, -, hs⟩ := of_bind_ok hs
      obtain ⟨policy, -, hs⟩ := of_bind_ok hs
      obtain ⟨lim, -, hs⟩ := of_bind_ok hs
      obtain ⟨maxBody, -, ⟨⟩⟩ := of_bind_ok hs
      exact ⟨rfl, rfl, rfl, rfl, rfl, rfl⟩

theorem get?_actions
    (ha : check spec = .ok app)
    (hs : start app env files tok sess = .ok (su, first)) {a : Action}
    (mem : a ∈ app.actions) : su.actions.get? a.name = some a := by
  rw [(holds_of_start hs).actions_eq]
  refine Entries.get?_ofPairs ?_ (mem_map_of_mem mem)
  rw [map_map]
  exact nodup_action_names ha

namespace Built

variable {su : Setup} (hb : Built su)

include hb

theorem exists_accepted : ∃ spec, check spec = .ok su.app := by
  obtain ⟨spec, app, env, files, tok, sess, first, ha, hs⟩ := hb
  rw [(holds_of_start hs).app_eq]
  exact ⟨spec, ha⟩

theorem get?_models {m : Model} (hm : m ∈ su.app.models) : su.models.get? m.name = some m := by
  obtain ⟨spec, app, env, files, tok, sess, first, ha, hs⟩ := hb
  have holds := holds_of_start hs
  rw [holds.app_eq] at hm
  rw [holds.models_eq]
  refine Entries.get?_ofPairs ?_ (mem_map_of_mem hm)
  rw [map_map]
  exact nodup_model_names ha

end Built

/-! ## A server at work -/

def todoSpec (adminPath : String) : Json.Members := [
  ("db", .obj [("path", .str ":memory:"), ("models", .arr [
    .obj [("name", .str "Todo"), ("fields", .obj [("title", .str "text")])]])]),
  ("api", .obj [("crud", .arr [.str "Todo"])]),
  ("ui", .obj [("admin_path", .str adminPath), ("admin_auth", .obj [
    ("username", .str "root"), ("password", .str "secret")])])]

def serverFor? (spec : Json.Members) (environment : Outbound.Environment) :
    Option (Setup × State) :=
  match check spec with
  | .ok app => (start app environment {} "token" {}).toOption
  | .error _ => none

theorem accepted_of_serverFor?
    (h : serverFor? spec env = some (su, first)) : check spec = .ok su.app ∧ Built su := by
  unfold serverFor? at h
  split at h
  · rename_i app ha
    cases hs : start app env {} "token" {} with
    | error e => rw [hs] at h; cases h
    | ok p =>
      rw [hs] at h
      cases h
      rw [(holds_of_start hs).app_eq]
      exact ⟨ha, _, app, _, _, _, _, first, ha, hs⟩
  · cases h

def todoServer? (adminPath : String) : Option (Setup × State) :=
  match check (todoSpec adminPath) with
  | .ok app => (start app [("VIBEWEB_API_KEY", "k")] {} "token" {}).toOption
  | .error _ => none

theorem built_of_todoServer? {adminPath : String}
    (h : todoServer? adminPath = some (su, first)) : Built su :=
  (accepted_of_serverFor? h).2

end Server

end Appwright
