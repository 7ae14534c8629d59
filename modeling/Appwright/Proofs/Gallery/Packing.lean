import Appwright.Gallery.Bundle
import Appwright.Proofs.Assistant.Repairs
import Appwright.Proofs.Spec.Complete

/-!
# Packing what the assistant makes

The assistant gives back only what passed the check. A bundle of it is one folder, named in plain
letters, with the specification in a file that reads back as it was. There is a bundle exactly if the
name is a text: the check lets a name pass that counts as missing, and the folder is named after it.
-/

namespace Appwright

open List Json Outbound Spec

/-! ## Folders -/

namespace Gallery

/-- A name for a folder: small letters, digits, hyphens and underscores of ASCII, at least one. -/
structure FolderName (folder : String) : Prop where
  filled : folder ≠ ""
  chars : ∀ c ∈ folder.toList, c.isLower = true ∨ c.isDigit = true ∨ c = '-' ∨ c = '_'

theorem toLower_of_isAlphanum {c : Char} (h : c.isAlphanum) :
    c.toLower.isLower ∨ c.toLower.isDigit := by
  change (c.isAlpha || c.isDigit) at h
  rcases Bool.or_eq_true _ _ |>.mp h with hl | hd
  · exact .inl (by rw [Char.isLower_toLower_eq_isAlpha, hl])
  · have hs : ¬ c.isUpper := by
      intro hu
      have hl : c.isAlpha := by
        change (c.isUpper || c.isLower)
        rw [hu, Bool.true_or]
      rw [Text.isDigit_eq_false_of_isAlpha hl] at hd
      cases hd
    exact .inr (by rw [Char.toLower_eq_of_not_isUpper hs, hd])

theorem mem_slugWords {name : String} {word : List Char} (mem : word ∈ slugWords name) :
    word ≠ [] ∧ ∀ c ∈ word, c.isLower ∨ c.isDigit := by
  obtain ⟨run, hf, rfl⟩ := mem_map.1 mem
  obtain ⟨some, all⟩ := Text.mem_runsFrom nofun hf
  refine ⟨by simpa using some, fun c mem => ?_⟩
  obtain ⟨d, hd, rfl⟩ := mem_map.1 mem
  exact toLower_of_isAlphanum (all d hd).1

theorem intercalate_ne_nil {sep : Char} {word : List Char} (some : word ≠ [])
    (ws : List (List Char)) : [sep].intercalate (word :: ws) ≠ [] := by
  cases ws with
  | nil => rwa [intercalate_singleton]
  | cons next ws => simp [intercalate_cons_cons, some]

theorem folderName_slug (name : String) : FolderName (slug name) := by
  unfold slug
  split
  · have all : "vibeweb_app".toList.all (fun c => c.isLower || c == '_') := by decide
    refine ⟨by decide, fun c mem => ?_⟩
    have hp := all_eq_true.1 all c mem
    rw [Bool.or_eq_true, beq_iff_eq] at hp
    exact hp.imp_right fun hl => .inr (.inr hl)
  next some =>
    constructor
    · obtain ⟨word, ws, hs⟩ := exists_cons_of_ne_nil some
      have first := (mem_slugWords (hs ▸ mem_cons_self)).1
      rw [hs, ne_eq, ← String.toList_eq_nil_iff, String.toList_ofList]
      exact intercalate_ne_nil first ws
    · intro c mem
      rw [String.toList_ofList] at mem
      rcases Text.mem_intercalate mem with rfl | ⟨word, hw, hi⟩
      · exact .inr (.inr (.inl rfl))
      · exact ((mem_slugWords hw).2 c hi).imp_right .inl

end Gallery

/-! ## What the assistant makes -/

namespace Assistant

open Json (Legible)

/-- A specification that passes the check, that reads back when it is written, and that has a name. -/
structure Finished (spec : Members) : Prop where
  accepted : ∃ app, Spec.check spec = .ok app
  legible : Legible (.obj spec)
  named : ∃ name, spec.get? "name" = some name

variable {chat : Chat} {spec : Members} {s s' : Session}

theorem Chat.Drafts.legible {reply : Reply} (h : chat.Drafts reply spec) :
    Legible (.obj spec) ∧ ∃ name, spec.get? "name" = some name := by
  obtain ⟨resp, data, text, v, -, -, -, he, hc⟩ := h
  unfold extract at he
  split at he
  · cases he
  · exact legible_of_complete hc (legible_of_read (mapError_eq_ok he))

theorem finished_of_generate {env : Environment} {ord : Order}
    (h : generate env ord s = .ok spec s') : Finished spec := by
  obtain ⟨chat, repairs, -, -, ran⟩ := generate_eq_ok h
  obtain ⟨errs, -, -, hd, ha, -⟩ := attempts_ok ran
  exact ⟨ha, hd.legible.1, hd.legible.2⟩

end Assistant

/-! ## Bundles -/

namespace Gallery

structure Bundle.Packs (b : Bundle) (folder : String) (spec : Members) : Prop where
  named : FolderName folder
  inside : ∀ e ∈ b.entries, ∃ file, file ≠ "" ∧ '/' ∉ file.toList ∧ e.path = folder ++ "/" ++ file
  holds : ∃ e ∈ b.entries, e.path = folder ++ "/" ++ "app.vweb.json"
  reads : ∀ e ∈ b.entries, e.path = folder ++ "/" ++ "app.vweb.json" →
    read e.text = .ok (.obj spec)

def fileNames : List String :=
  ["app.vweb.json", "README.md", "run.sh", "run.command", "run.bat", "requirements.txt",
    ".env.example", "VIBEPY_REF.txt"]

theorem path_entriesOf (name ver revision : String) (spec : Members) :
    (entriesOf name ver revision spec).map Entry.path = fileNames.map (slug name ++ "/" ++ ·) := rfl

variable {spec : Members} {v : Json}

theorem packs_entriesOf (hle : Legible (.obj spec)) (name ver revision filename : String) :
    Bundle.Packs ⟨filename, entriesOf name ver revision spec⟩ (slug name) spec where
  named := folderName_slug name
  inside e he := by
    have hpa : e.path ∈ (entriesOf name ver revision spec).map Entry.path := mem_map_of_mem he
    rw [path_entriesOf] at hpa
    obtain ⟨file, hl, hs⟩ := mem_map.1 hpa
    have hp : ∀ file ∈ fileNames, file ≠ "" ∧ '/' ∉ file.toList := by decide
    exact ⟨file, (hp file hl).1, (hp file hl).2, hs.symm⟩
  holds := ⟨_, mem_cons_self, rfl⟩
  reads e he hpa := by
    rcases mem_cons.1 he with rfl | hla
    · exact read_write hle faithful_pretty
    · have ho : e.path ∈ fileNames.tail.map (slug name ++ "/" ++ ·) := mem_map_of_mem (f := Entry.path) hla
      obtain ⟨file, hl, hs⟩ := mem_map.1 ho
      rw [hpa, String.append_right_inj] at hs
      rw [hs] at hl
      exact absurd hl (by decide)

theorem bundle_eq_ok_iff {env : Environment} {ver : String} (hn : spec.get? "name" = some v) :
    (∃ b, bundle env ver spec = .ok b) ↔ ∃ name, v = .str name := by
  rw [bundle, hn]
  constructor
  · rintro ⟨b, hm⟩
    cases v with
    | str name => exact ⟨name, rfl⟩
    | _ => cases hm
  · rintro ⟨name, rfl⟩
    exact ⟨_, rfl⟩

theorem name_of_accepted {app : Spec.App} (ha : check spec = .ok app)
    (hn : spec.get? "name" = some v) : v.truthy = false ∨ ∃ name, v = .str name := by
  obtain ⟨_, -, ha⟩ := of_bind_ok ha
  obtain ⟨name, ht, -⟩ := of_bind_ok ha
  have hs := (of_asText ht).1
  unfold memberOr at hs
  rw [hn] at hs
  cases hc : v.truthy with
  | false => exact .inl rfl
  | true => exact .inr ⟨name, by simpa [hc] using hs⟩

/-! ## An assistant on the own machine -/

def called (name : Json) : Json :=
  .obj [("name", name), ("db", .obj [("models", .arr [])])]

def replying (spec : Json) : Session where
  script := [⟨0.0, .ok { body :=
    (encode (.obj [("message", .obj [("content", .str spec.encode)])])).toUTF8.data.toList }⟩]

def localOrder : Assistant.Order where
  prompt := "notes"
  provider := "ollama"
  baseUrl := "http://localhost"

def madeName? (s : Session) : Option (Option String) :=
  match Assistant.generate [] localOrder s with
  | .ok spec _ => some ((spec.get? "name").map kindName)
  | .error _ _ => none

theorem kindName_eq_str_iff : v.kindName = "str" ↔ ∃ text, v = .str text := by
  cases v <;> simp [kindName]

theorem exists_of_madeName? {s : Session} {kind : String}
    (h : madeName? s = some (some kind)) : ∃ spec s' v, Assistant.generate [] localOrder s = .ok spec s' ∧
      spec.get? "name" = some v ∧ v.kindName = kind := by
  unfold madeName? at h
  split at h
  next spec s' hm =>
    obtain ⟨v, hn, hs⟩ := Option.map_eq_some_iff.1 (Option.some.inj h)
    exact ⟨spec, s', v, hm, hn, hs⟩
  next => cases h

/-! ## What the assistant makes can be packed -/

end Gallery

end Appwright
