import Appwright.Proofs.Json.Reading
import Appwright.Proofs.Spec.Accepted
import Appwright.Spec.Complete

/-!
# Completed specifications

What is completed from a value that was read can be written and read again, and it has a name.
Completing takes nothing away and is done once for all, and it keeps what was accepted so
(`complete_settles`). Accepted specifications are the ones whose sections are objects, so that what is
added to them can be said: `Completed` is all that completing does.
-/

namespace Appwright.Spec

open List Json Entries Except Text

open Json (Legible)

/-! ## Members that are added -/

/-- A part is another one, or that object with further members at its end. -/
inductive Extends : (part whole : Json) → Prop
  | same (v : Json) : Extends v v
  | more (members added : Members) : Extends (.obj members) (.obj (members ++ added))

variable {v part whole : Json} {name other : String} {value : Except CompleteError Json}
  {ns xs : List Json} {ms spec : Members}

theorem Extends.trans {u w : Json} (h : Extends u v) (h' : Extends v w) : Extends u w := by
  cases h with
  | same => exact h'
  | more members added =>
    cases h' with
    | same => exact .more members added
    | more _ others =>
      rw [append_assoc]
      exact .more members (added ++ others)

theorem addMember_of_holds (h : holds name part = .ok true) (value : Except CompleteError Json) :
    addMember name value part = .ok part := by
  rw [addMember, h]
  rfl

/-- A member that is missing is added to an object only. -/
theorem addMember_eq_ok (h : addMember name value part = .ok whole) :
    holds name part = .ok true ∧ whole = part ∨
      ∃ members v, part = .obj members ∧ value = .ok v ∧ whole = .obj (putNew name v members) := by
  obtain ⟨found, held, h⟩ := of_bind_ok h
  cases found with
  | true =>
    cases h
    exact .inl ⟨held, rfl⟩
  | false =>
    obtain ⟨v, hg, h⟩ := of_bind_ok h
    cases part with
    | obj members =>
      cases h
      have hm : has name members = false := ok.inj held
      refine .inr ⟨members, v, rfl, hg, ?_⟩
      rw [putNew_eq, hm]
      rfl
    | _ => cases h

theorem holds_of_addMember (h : addMember name value part = .ok whole) : holds name whole = .ok true := by
  rcases addMember_eq_ok h with ⟨held, rfl⟩ | ⟨members, v, rfl, -, rfl⟩
  · exact held
  · exact congrArg ok (has_of_get? (get?_putNew_self name v members))

theorem holds_mono (h : addMember name value part = .ok whole) (held : holds other part = .ok true) :
    holds other whole = .ok true := by
  by_cases hs : other = name
  · rw [hs]
    exact holds_of_addMember h
  rcases addMember_eq_ok h with ⟨-, rfl⟩ | ⟨members, v, rfl, -, rfl⟩
  · exact held
  · rw [holds, has, get?_putNew_of_ne hs]
    exact held

theorem extends_of_addMember (h : addMember name value part = .ok whole) : Extends part whole := by
  rcases addMember_eq_ok h with ⟨-, rfl⟩ | ⟨members, v, rfl, -, rfl⟩
  · exact .same _
  · rw [putNew]
    split
    · exact .same _
    · exact .more members _

/-! ## Sections -/

theorem completeApi_settles (h : completeApi ns part = .ok whole) :
    Extends part whole ∧ ∀ ns', completeApi ns' whole = .ok whole := by
  obtain ⟨served, hc, h⟩ := of_bind_ok h
  obtain ⟨acting, ha, hooks⟩ := of_bind_ok h
  refine ⟨((extends_of_addMember hc).trans (extends_of_addMember ha)).trans
    (extends_of_addMember hooks), fun ns' => ?_⟩
  have first := holds_mono hooks (holds_mono ha (holds_of_addMember hc))
  have hs := holds_mono hooks (holds_of_addMember ha)
  rw [completeApi, addMember_of_holds first]
  exact (congrArg (· >>= _) (addMember_of_holds hs _)).trans (addMember_of_holds (holds_of_addMember hooks) _)

theorem Extends.get? (h : Extends part whole) (hf : part.get? name = some v) :
    whole.get? name = some v := by
  cases h with
  | same => exact hf
  | more members added => exact get?_append_left hf

theorem completeUi_of_holds {members : Members} (hp : holds "pages" (.obj members) = .ok true)
    (ha : holds "admin" (.obj members) = .ok true)
    (hpa : holds "admin_path" (.obj members) = .ok true) (names : List Json) :
    completeUi names (.obj members) = if ((members.get? "admin").getD .null).truthy then
        addMember "admin_auth" (.ok standardAccount) (.obj members)
      else .ok (.obj members) := by
  rw [completeUi, addMember_of_holds hp]
  change (addMember "admin" _ (.obj members) >>= _) = _
  rw [addMember_of_holds ha]
  change (addMember "admin_path" _ (.obj members) >>= _) = _
  rw [addMember_of_holds hpa]
  rfl

theorem completeUi_settles (h : completeUi ns part = .ok whole) :
    Extends part whole ∧ ∀ ns', completeUi ns' whole = .ok whole := by
  unfold completeUi at h
  simp only [except_bind_eq_ok_iff] at h
  obtain ⟨shown, hp, managed, had, placed, hpa, h⟩ := h
  have hk := ((extends_of_addMember hp).trans (extends_of_addMember had)).trans (extends_of_addMember hpa)
  have first := holds_mono hpa (holds_mono had (holds_of_addMember hp))
  have hs := holds_mono hpa (holds_of_addMember had)
  have ht := holds_of_addMember hpa
  cases placed with
  | obj members =>
    dsimp only at h
    split at h
    next managed =>
      have ha := holds_of_addMember h
      refine ⟨hk.trans (extends_of_addMember h), fun ns' => ?_⟩
      have first := holds_mono h first
      have hs := holds_mono h hs
      have ht := holds_mono h ht
      rcases addMember_eq_ok h with ⟨-, rfl⟩ | ⟨_, v, ⟨⟩, -, rfl⟩
      · rw [completeUi_of_holds first hs ht, if_pos managed, addMember_of_holds ha]
      · rw [completeUi_of_holds first hs ht, get?_putNew_of_ne (by decide),
          if_pos managed, addMember_of_holds ha]
    next hpl =>
      cases h
      refine ⟨hk, fun ns' => ?_⟩
      rw [completeUi_of_holds first hs ht, if_neg hpl]
  | _ => cases h

/-! ## Whole specifications -/

/-- What completing finds, and what it makes of that. -/
structure Completed (members spec : Members) (db : Json) (models : List Json) (api ui : Json) :
    Prop where
  found : members.get? "db" = some db
  listed : modelsPart db = .ok models
  served : completeApi (models.filterMap modelName?) ((members.get? "api").getD (.obj [])) = .ok api
  shown : completeUi (models.filterMap modelName?) ((members.get? "ui").getD (.obj [])) = .ok ui
  made : spec = (((members.put "spec_version" (.int 1)).putNew "name" (.str "VibeWeb App")).put
    "api" api).put "ui" ui

theorem completeMembers_eq_ok_iff : completeMembers ms = .ok spec ↔
    ∃ db models api ui, Completed ms spec db models api ui := by
  have ho {name : String} (hv : name ≠ "spec_version") (hti : name ≠ "name") :
      ((ms.put "spec_version" (.int 1)).putNew "name" (.str "VibeWeb App")).get? name = ms.get? name := by
    rw [get?_putNew_of_ne hti, get?_put_of_ne hv]
  unfold completeMembers
  dsimp only
  rw [ho (by decide) (by decide), ho (by decide) (by decide), ho (by decide) (by decide)]
  cases hf : ms.get? "db" with
  | none =>
    constructor
    · intro h
      cases h
    · rintro ⟨db, models, api, ui, ht, -⟩
      cases hf.symm.trans ht
  | some db =>
    simp only [except_bind_eq_ok_iff]
    constructor
    · rintro ⟨models, hl, api, hs, ui, hsh, ⟨⟩⟩
      exact ⟨db, models, api, ui, hf, hl, hs, hsh, rfl⟩
    · rintro ⟨_, models, api, ui, ht, hl, hs, hsh, rfl⟩
      cases hf.symm.trans ht
      exact ⟨models, hl, api, hs, ui, hsh, rfl⟩

namespace Completed

variable {db api ui : Json} {models : List Json} (h : Completed ms spec db models api ui)
include h

theorem get?_ui : spec.get? "ui" = some ui := by
  rw [h.made, get?_put_self]

theorem get?_api : spec.get? "api" = some api := by
  rw [h.made, get?_put_of_ne (by decide), get?_put_self]

theorem get?_name : spec.get? "name" = some ((ms.get? "name").getD (.str "VibeWeb App")) := by
  rw [h.made, get?_put_of_ne (by decide), get?_put_of_ne (by decide),
    get?_putNew_self, get?_put_of_ne (by decide)]

theorem get?_version : spec.get? "spec_version" = some (.int 1) := by
  rw [h.made, get?_put_of_ne (by decide), get?_put_of_ne (by decide),
    get?_putNew_of_ne (by decide), get?_put_self]

theorem get?_other (other : name ∉ ["spec_version", "name", "api", "ui"]) :
    spec.get? name = ms.get? name := by
  simp only [mem_cons, not_mem_nil, or_false, not_or] at other
  obtain ⟨hv, ht, api, ui⟩ := other
  rw [h.made, get?_put_of_ne ui, get?_put_of_ne api, get?_putNew_of_ne ht, get?_put_of_ne hv]

/-- What is completed is complete. -/
theorem again : Completed spec spec db models api ui where
  found := by rw [h.get?_other (by decide), h.found]
  listed := h.listed
  served := by
    rw [h.get?_api]
    exact (completeApi_settles h.served).2 _
  shown := by
    rw [h.get?_ui]
    exact (completeUi_settles h.shown).2 _
  made := by
    have hn : spec.has "name" := has_of_get? h.get?_name
    rw [put_eq_self h.get?_version, putNew, if_pos hn, put_eq_self h.get?_api, put_eq_self h.get?_ui]

theorem kept {v : Json} (hf : ms.get? name = some v) (other : name ≠ "spec_version") :
    ∃ w, spec.get? name = some w ∧ Extends v w ∧ (name ∉ ["api", "ui"] → w = v) := by
  by_cases api : name = "api"
  · subst api
    have hs := h.served
    rw [hf] at hs
    exact ⟨_, h.get?_api, (completeApi_settles hs).1, fun hs' => absurd (by simp) hs'⟩
  by_cases ui : name = "ui"
  · subst ui
    have hsh := h.shown
    rw [hf] at hsh
    exact ⟨_, h.get?_ui, (completeUi_settles hsh).1, fun hs' => absurd (by simp) hs'⟩
  refine ⟨v, ?_, .same v, fun _ => rfl⟩
  by_cases ht : name = "name"
  · subst ht
    rw [h.get?_name, hf]
    rfl
  · rw [h.get?_other (by simp [other, ht, api, ui]), hf]

end Completed

/-! ## Legible specifications -/

theorem legible_addMember (h : addMember name value part = .ok whole) (hl : Legible part)
    (ha : ∀ v, value = .ok v → Legible v) : Legible whole := by
  rcases addMember_eq_ok h with ⟨-, rfl⟩ | ⟨members, v, rfl, hg, rfl⟩
  · exact hl
  · rw [putNew_eq]
    split
    · exact hl
    · exact hl.put name (ha v hg)

theorem legible_of_itemsOf (h : itemsOf v = .ok xs)
    (hl : Legible v) : ∀ item ∈ xs, Legible item := by
  unfold itemsOf at h
  split at h
  · cases h
    exact hl.items
  · cases h
    intro item mem
    obtain ⟨m, -, rfl⟩ := mem_map.1 mem
    exact .str _
  · cases h
    intro item mem
    obtain ⟨c, -, rfl⟩ := mem_map.1 mem
    exact .str _
  · cases h

variable {db : Json} {models : List Json}

theorem legible_of_modelsPart (h : modelsPart db = .ok models)
    (hl : Legible db) : ∀ m ∈ models, Legible m := by
  obtain ⟨found, -, h⟩ := of_bind_ok h
  extract_lets listed at h
  split at h
  · cases db with
    | obj members =>
      refine legible_of_itemsOf h ?_
      cases part : get? "models" members with
      | none => exact .null
      | some v => exact hl.get? part
    | _ => cases h
  · cases h

theorem legible_of_modelName? {model name : Json} (h : modelName? model = some name)
    (hl : Legible model) : Legible name := by
  have hf := (Option.filter_eq_some_iff.1 h).1
  unfold Json.get? at hf
  split at hf
  · exact hl.get? hf
  · cases hf

theorem legible_of_pageFor {name page : Json} (h : pageFor name = .ok page) : Legible page := by
  unfold pageFor at h
  split at h
  · cases h
    exact .obj (by simp) (by simp [Legible.str])
  · cases h

theorem legible_standardAccount : Legible standardAccount := .obj (by simp) (by simp [Legible.str])

variable {names : List Json} {api : Json}

theorem legible_of_completeApi {whole : Json}
    (h : completeApi names api = .ok whole) (hea : ∀ name ∈ names, Legible name)
    (hl : Legible api) : Legible whole := by
  obtain ⟨first, hc, h⟩ := of_bind_ok h
  obtain ⟨snd, ha, hooks⟩ := of_bind_ok h
  have he : Legible (.arr []) := .arr nofun
  have hs := legible_addMember hc hl fun v hg => by
    cases hg
    exact .arr hea
  have hac := legible_addMember ha hs fun v hg => by
    cases hg
    exact he
  exact legible_addMember hooks hac fun v hg => by
    cases hg
    exact he

variable {ui : Json}

theorem legible_of_completeUi {whole : Json}
    (h : completeUi names ui = .ok whole) (hl : Legible ui) : Legible whole := by
  unfold completeUi at h
  simp only [except_bind_eq_ok_iff] at h
  obtain ⟨first, hpa, snd, ha, third, path, h⟩ := h
  have hs := legible_addMember hpa hl fun v hg => by
    obtain ⟨made, hli, rfl⟩ := except_map_eq_ok hg
    refine .arr fun page mem => ?_
    obtain ⟨name, -, page⟩ := exists_of_mem_mapM hli page mem
    exact legible_of_pageFor page
  have hm := legible_addMember ha hs fun v hg => by
    cases hg
    exact .bool true
  have hp := legible_addMember path hm fun v hg => by
    cases hg
    exact .str _
  split at h
  · split at h
    · exact legible_addMember h hp fun v hg => by
        cases hg
        exact legible_standardAccount
    · cases h
      exact hp
  · cases h

theorem Completed.legible
    (h : Completed ms spec db models api ui) (legible : Legible (.obj ms)) : Legible (.obj spec) := by
  have hi (name : String) : Legible ((ms.get? name).getD (.obj [])) := by
    cases part : ms.get? name with
    | none => exact .none
    | some v => exact legible.get? part
  have hna : ∀ name ∈ models.filterMap modelName?, Legible name := by
    intro name mem
    obtain ⟨m, hm, hc⟩ := mem_filterMap.1 mem
    exact legible_of_modelName? hc (legible_of_modelsPart h.listed (legible.get? h.found) m hm)
  have hv : Legible (.obj (ms.put "spec_version" (.int 1))) :=
    legible.put "spec_version" (.int (by decide +kernel))
  have hn : Legible (.obj ((ms.put "spec_version" (.int 1)).putNew "name" (.str "VibeWeb App"))) := by
    rw [putNew_eq]
    split
    · exact hv
    · exact hv.put "name" (.str _)
  rw [h.made]
  exact (hn.put "api" (legible_of_completeApi h.served hna (hi "api"))).put "ui"
    (legible_of_completeUi h.shown (hi "ui"))

theorem legible_of_complete (h : complete v = .ok spec) (hl : Legible v) :
    Legible (.obj spec) ∧ ∃ name, spec.get? "name" = some name := by
  cases v with
  | obj members =>
    obtain ⟨db, models, api, ui, hc⟩ := completeMembers_eq_ok_iff.1 h
    exact ⟨hc.legible hl, _, hc.get?_name⟩
  | _ => cases h

/-! ## Accepted specifications stay accepted -/

section Member

variable {m : Members} {dflt v : Json}

theorem member_putNew_of_ne (h : other ≠ name) :
    member other dflt (m.putNew name v) = member other dflt m := by
  rw [member, member, get?_putNew_of_ne h]

theorem memberOr_putNew_of_ne (h : other ≠ name) :
    memberOr other dflt (m.putNew name v) = memberOr other dflt m := by
  rw [memberOr, memberOr, get?_putNew_of_ne h]

theorem member_putNew_self : member name dflt (m.putNew name dflt) = member name dflt m := by
  rw [member, get?_putNew_self]
  rfl

theorem memberOr_putNew (xs : List Json) :
    memberOr name (.arr []) (m.putNew name (.arr xs)) = memberOr name (.arr []) m ∨
      memberOr name (.arr []) (m.putNew name (.arr xs)) = .arr xs := by
  rw [memberOr, memberOr, get?_putNew_self]
  cases m.get? name with
  | some v => exact .inl rfl
  | none =>
    cases xs with
    | nil => exact .inl rfl
    | cons item xs => exact .inr rfl

theorem memberOr_of_truthy (hf : m.get? name = some v) (hc : v.truthy) :
    memberOr name dflt m = v := by
  rw [memberOr, hf]
  exact if_pos hc

theorem memberOr_obj {mid : Members} (hf : m.get? name = some (.obj mid)) :
    memberOr name (.obj []) m = .obj mid := by
  rw [memberOr, hf]
  cases mid <;> rfl

theorem memberOr_of_getD {es : Members} (hf : es.get? name = some ((m.get? name).getD dflt)) :
    memberOr name dflt es = memberOr name dflt m := by
  rw [memberOr, memberOr, hf]
  cases m.get? name with
  | none => exact ite_self _
  | some v => rfl

theorem memberOr_putNew_self : memberOr name dflt (m.putNew name dflt) = memberOr name dflt m :=
  memberOr_of_getD (get?_putNew_self ..)

end Member

theorem truthy_of_holds (h : holds name part = .ok true) (hf : contains "" name = false) :
    part.truthy := by
  cases part with
  | obj members =>
    cases members with
    | nil => cases h
    | cons => rfl
  | arr xs =>
    cases xs with
    | nil => cases h
    | cons => rfl
  | str s =>
    have hi : contains s name := ok.inj h
    have hn : s ≠ "" := by
      rintro rfl
      rw [hf] at hi
      cases hi
    simpa [truthy] using hn
  | _ => cases h

theorem addMember_obj (name : String) (v : Json) (m : Members) :
    addMember name (.ok v) (.obj m) = .ok (.obj (m.putNew name v)) := by
  cases held : m.has name with
  | true =>
    have ht : holds name (.obj m) = .ok true := congrArg ok held
    rw [addMember_of_holds ht, putNew, if_pos held]
  | false =>
    have hm : holds name (.obj m) = .ok false := congrArg ok held
    rw [addMember, hm, putNew_eq, held]
    rfl

variable {lb need : String} {m : Members} {raw : List Json} {admin : Admin}

theorem section_eq
    (h : addMember other value ((ms.get? name).getD (.obj [])) = .ok whole)
    (hfu : contains "" other = false)
    (hc : asObject lb need (memberOr name (.obj []) ms) = .ok m) :
    (ms.get? name).getD (.obj []) = .obj m := by
  cases hf : ms.get? name with
  | none =>
    rw [memberOr, hf] at hc
    exact of_asObject hc
  | some v =>
    rw [hf, Option.getD_some] at h
    cases hco : v.truthy with
    | true =>
      rw [memberOr_of_truthy hf hco] at hc
      exact of_asObject hc
    | false =>
      rcases addMember_eq_ok h with ⟨held, -⟩ | ⟨mid, _, rfl, -⟩
      · rw [truthy_of_holds held hfu] at hco
        cases hco
      · obtain rfl : mid = [] := by simpa [truthy] using hco
        rw [memberOr, hf] at hc
        exact of_asObject hc

theorem itemsOf_eq_nil (h : itemsOf v = .ok xs)
    (hm : v.truthy = false) : xs = [] := by
  cases v with
  | arr | obj | str =>
    cases h
    simpa [truthy] using hm
  | _ => cases h

theorem models_eq {part : String}
    (hf : ms.get? "db" = some db) (hl : modelsPart db = .ok models)
    (hch : asObject lb need (memberOr "db" (.obj []) ms) = .ok m)
    (hi : asList part (memberOr "models" (.arr []) m) = .ok raw) : models = raw := by
  obtain ⟨there, held, hl⟩ := of_bind_ok hl
  cases there with
  | false => cases hl
  | true =>
    have hc := truthy_of_holds held (by decide)
    rw [memberOr_of_truthy hf hc] at hch
    obtain rfl := of_asObject hch
    change itemsOf ((m.get? "models").getD .null) = .ok models at hl
    unfold memberOr at hi
    cases hin : m.get? "models" with
    | none =>
      rw [hin] at hl
      cases hl
    | some v =>
      rw [hin] at hl hi
      dsimp only [Option.getD_some] at hl hi
      cases hc : v.truthy with
      | true =>
        rw [hc, if_pos rfl] at hi
        unfold asList at hi
        split at hi
        · cases hi
          cases hl
          rfl
        · cases hi
      | false =>
        rw [hc] at hi
        cases hi
        exact itemsOf_eq_nil hl hc

theorem modelName?_eq {m : Json.Members} {text : String} (hw : member "name" .null m = .str text)
    (hfu : (!text.isEmpty)) : modelName? (.obj m) = some (.str text) := by
  have hf : m.get? "name" = some (.str text) := by
    unfold member at hw
    cases hi : m.get? "name" with
    | none =>
      rw [hi] at hw
      cases hw
    | some v =>
      rw [hi] at hw
      rw [← hw]
      rfl
  rw [modelName?, Json.get?, hf]
  exact if_pos hfu

theorem checkFields_of_subset {complain : String → Error} {known fs : List String}
    (h : ∀ f ∈ fs, f ∈ known) : checkFields complain known fs = .ok () := by
  induction fs with
  | nil => rfl
  | cons f rest ih =>
    rw [forall_mem_cons] at h
    rw [checkFields, if_pos (contains_iff_mem.2 h.1), ih h.2]

theorem filterMap_modelName? {models : List Model} {known : List String}
    (hm : raw.mapM (checkModel known) = .ok models) :
    raw.filterMap modelName? = models.map fun m => .str m.name := by
  rw [mapM_eq_ok_iff] at hm
  induction hm with
  | nil => rfl
  | cons first _ ih =>
    obtain ⟨members, rfl, hn, -⟩ := checkModel_eq_ok first
    obtain ⟨hw, hfu⟩ := of_asText hn
    have hf : modelName? (.obj members) = some (.str _) := modelName?_eq hw hfu
    rw [filterMap_cons_some hf, ih, map_cons]

/-! ### The check, part by part -/

theorem checkCrud_modelNames (ts : List String) : checkCrud ts (.arr (ts.map .str)) = .ok ts := by
  have hr (ws : List String) : (ws.map str).mapM text? = some ws := by
    induction ws with
    | nil => rfl
    | cons word ws ih =>
      rw [map_cons, mapM_cons, ih]
      rfl
  rw [checkCrud, texts?, hr]
  dsimp only
  rw [checkFields_of_subset fun _ mem => mem]
  rfl

theorem path_of_checkAdmin {ui : Members} (h : checkAdmin ui = .ok admin) :
    asText "ui.admin_path" "a string starting with /" (startsWith · "/")
      (member "admin_path" (.str "/admin") ui) = .ok admin.path := by
  obtain ⟨place, hp, h⟩ := of_bind_ok h
  rw [hp]
  cases ha : member "admin_auth" .null ui with
  | null =>
    rw [ha] at h
    cases h
    rfl
  | _ =>
    rw [ha] at h
    simp only [except_bind_eq_ok_iff] at h
    obtain ⟨_, -, _, -, _, -, _, -, ⟨⟩⟩ := h
    rfl

theorem checkAdmin_of_account {ui ui' : Members} (h : checkAdmin ui = .ok admin)
    (hpa : member "admin_path" (.str "/admin") ui' = member "admin_path" (.str "/admin") ui)
    (account : member "admin_auth" .null ui' = member "admin_auth" .null ui ∨
      member "admin_auth" .null ui' = standardAccount) :
    ∃ admin', checkAdmin ui' = .ok admin' ∧ admin'.path = admin.path := by
  have hp := path_of_checkAdmin h
  have hf : ∃ admin', checkAdmin ui' = .ok admin' := by
    unfold checkAdmin at h ⊢
    rw [hpa, hp]
    rw [hp] at h
    rcases account with hsa | hs
    · rw [hsa]
      cases hg : member "admin_auth" .null ui with
      | null => exact ⟨_, rfl⟩
      | _ =>
        rw [hg] at h
        simp only [except_bind_eq_ok_iff] at h ⊢
        obtain ⟨place, hsa, account, ho, type, ht, user, hn, password, hw, -⟩ := h
        exact ⟨_, place, hsa, account, ho, type, ht, user, hn, password, hw, rfl⟩
    · rw [hs]
      exact ⟨_, rfl⟩
  obtain ⟨admin', hc⟩ := hf
  have hsa := path_of_checkAdmin hc
  rw [hpa, hp] at hsa
  exact ⟨admin', hc, (ok.inj hsa).symm⟩

theorem checkLook_congr {ui ui' : Members}
    (ht : member "theme" .null ui' = member "theme" .null ui) : checkLook ui' = checkLook ui := by
  unfold checkLook
  rw [ht]

theorem checkPage_pageFor {models : List Model} {m : Model} {page : Json}
    (hf : findModel? name models = some m) (hm : pageFor (.str name) = .ok page) :
    ∃ p, checkPage models page = .ok p := by
  cases hm
  have hs : startsWith ("/" ++ lower name) "/" := by
    simp [startsWith]
  refine ⟨{ path := "/" ++ lower name, model := m.name, title := some (name ++ " List") }, ?_⟩
  simp [checkPage, asObject, asText, member, Entries.get?, hs, hf, bind, Except.bind]
  rfl

theorem exists_findModel? {models : List Model} (mem : name ∈ models.map Model.name) :
    ∃ m, findModel? name models = some m := by
  obtain ⟨m, ht, rfl⟩ := mem_map.1 mem
  exact Option.isSome_iff_exists.1 (find?_isSome.2 ⟨m, ht, beq_self_eq_true _⟩)

theorem completeApi_obj (names : List Json) (m : Members) : completeApi names (.obj m) =
    .ok (.obj (((m.putNew "crud" (.arr names)).putNew "actions" (.arr [])).putNew "hooks" (.arr []))) := by
  rw [completeApi, addMember_obj]
  change (addMember "actions" _ (.obj _) >>= _) = _
  rw [addMember_obj]
  exact addMember_obj ..

/-- A user interface that is completed has pages, and differs in nothing else that is checked but an
account. -/
theorem exists_completeUi_obj {ps : List Json} (hm : ns.mapM pageFor = .ok ps)
    (m : Members) : ∃ m', completeUi ns (.obj m) = .ok (.obj m') ∧
      (memberOr "pages" (.arr []) m' = memberOr "pages" (.arr []) m ∨
        memberOr "pages" (.arr []) m' = .arr ps) ∧
      member "admin_path" (.str "/admin") m' = member "admin_path" (.str "/admin") m ∧
      (member "admin_auth" .null m' = member "admin_auth" .null m ∨
        member "admin_auth" .null m' = standardAccount) ∧
      member "theme" .null m' = member "theme" .null m := by
  let filled := ((m.putNew "pages" (.arr ps)).putNew "admin" (.bool true)).putNew "admin_path"
    (.str "/admin")
  have hst : completeUi ns (.obj m) = if ((filled.get? "admin").getD .null).truthy then
        .ok (.obj (filled.putNew "admin_auth" standardAccount))
      else .ok (.obj filled) := by
    have hg : (arr <$> ns.mapM pageFor : Except CompleteError Json) = .ok (.arr ps) := by
      rw [hm]
      rfl
    rw [← addMember_obj, completeUi, hg, addMember_obj]
    change (addMember "admin" _ (.obj _) >>= _) = _
    rw [addMember_obj]
    change (addMember "admin_path" _ (.obj _) >>= _) = _
    rw [addMember_obj]
    rfl
  have hs : memberOr "pages" (.arr []) filled = memberOr "pages" (.arr []) m ∨
      memberOr "pages" (.arr []) filled = .arr ps := by
    rw [memberOr_putNew_of_ne (by decide), memberOr_putNew_of_ne (by decide)]
    exact memberOr_putNew ps
  have hp : member "admin_path" (.str "/admin") filled = member "admin_path" (.str "/admin") m := by
    rw [member_putNew_self, member_putNew_of_ne (by decide), member_putNew_of_ne (by decide)]
  have hsa {name : String} (other : name ∉ ["pages", "admin", "admin_path"]) :
      member name .null filled = member name .null m := by
    simp only [mem_cons, not_mem_nil, or_false, not_or] at other
    rw [member_putNew_of_ne other.2.2, member_putNew_of_ne other.2.1, member_putNew_of_ne other.1]
  by_cases hc : ((filled.get? "admin").getD .null).truthy
  · rw [if_pos hc] at hst
    refine ⟨_, hst, ?_, ?_, ?_, ?_⟩
    · rwa [memberOr_putNew_of_ne (by decide)]
    · rw [member_putNew_of_ne (by decide), hp]
    · rw [← hsa (by decide), member, member, get?_putNew_self]
      cases filled.get? "admin_auth" with
      | none => exact .inr rfl
      | some v => exact .inl rfl
    · rw [member_putNew_of_ne (by decide), hsa (by decide)]
  · rw [if_neg hc] at hst
    exact ⟨filled, hst, hs, hp, .inl (hsa (by decide)), hsa (by decide)⟩

theorem Completed.accepted {app : App}
    (h : Completed ms spec db models api ui) (accepted : check ms = .ok app) :
    ∃ app', check spec = .ok app' := by
  unfold check at accepted
  simp only [except_bind_eq_ok_iff] at accepted
  obtain ⟨ver, -, title, hn, dbMembers, ho, dbPath, hpl, rawModels, hl, modelNames,
    hc, checked, hma, apiMembers, hap, crud, hs, rawActions, actionsListed, rawHooks,
    hh, uiMembers, hui, rawPages, hp, admin, hm, look, hst, ps, hsh,
    actionNames, hac, as, hact, hooks, hw, -⟩ := accepted
  obtain ⟨rfl, -⟩ : modelNames = checked.map Model.name ∧ _ := by
    simpa using names_eq_of_fresh (fun _ => rfl) checkModelNames_cons hc hma nodup_nil
  obtain rfl := models_eq h.found h.listed ho hl
  have hna : models.filterMap modelName? = (checked.map Model.name).map .str := by
    rw [filterMap_modelName? hma, map_map]
    rfl
  obtain ⟨added, hpa⟩ : ∃ added, ((checked.map Model.name).map str).mapM pageFor = .ok added :=
    exists_mapM_eq_ok fun v mem => by
      obtain ⟨name, -, rfl⟩ := mem_map.1 mem
      exact ⟨_, rfl⟩
  have ha := h.served
  have hu := h.shown
  rw [hna] at ha hu
  obtain ⟨_, first, -⟩ := of_bind_ok ha
  rw [section_eq first (by decide) hap, completeApi_obj] at ha
  obtain ⟨_, first, -⟩ := of_bind_ok hu
  rw [section_eq first (by decide) hui] at hu
  obtain ⟨uiMembers', hu', pages', hp', ha', ht'⟩ := exists_completeUi_obj hpa uiMembers
  cases ok.inj ha
  cases hu'.symm.trans hu
  obtain ⟨crud', hse'⟩ : ∃ crud', checkCrud (checked.map Model.name)
      (memberOr "crud" (.arr []) (apiMembers.putNew "crud"
        (.arr ((checked.map Model.name).map .str)))) = .ok crud' := by
    rcases memberOr_putNew ((checked.map Model.name).map str) with hsa | new
    · exact ⟨crud, by rw [hsa, hs]⟩
    · exact ⟨_, by rw [new, checkCrud_modelNames]⟩
  obtain ⟨rawPages', hl', pages', hs'⟩ : ∃ rawPages',
      asList "ui.pages" (memberOr "pages" (.arr []) uiMembers') = .ok rawPages' ∧
        ∃ pages', rawPages'.mapM (checkPage checked) = .ok pages' := by
    rcases pages' with hsa | new
    · exact ⟨rawPages, by rw [hsa, hp], ps, hsh⟩
    · refine ⟨added, by rw [new]; rfl, exists_mapM_eq_ok fun page mem => ?_⟩
      obtain ⟨v, ht, page⟩ := exists_of_mem_mapM hpa page mem
      obtain ⟨name, hk, rfl⟩ := mem_map.1 ht
      obtain ⟨m, hf⟩ := exists_findModel? hk
      exact checkPage_pageFor hf page
  obtain ⟨admin', hm', hsa⟩ := checkAdmin_of_account hm hp' ha'
  rw [← hsa] at hact
  have hapi := congrArg (asObject "api" "an object") (memberOr_obj h.get?_api)
  simp only [check, except_bind_eq_ok_iff]
  refine ⟨_, .int 1, ?_, title, ?_, dbMembers, ?_, dbPath, hpl, models, hl, _, hc, checked,
    hma, _, hapi, crud', ?_, rawActions, ?_, rawHooks, ?_, uiMembers', ?_, rawPages', hl', admin',
    hm', look, ?_, pages', hs', actionNames, hac, as, hact, hooks, hw, rfl⟩
  · rw [member, h.get?_version]
    rfl
  · rw [memberOr_of_getD h.get?_name, hn]
  · rwa [memberOr, h.get?_other (by decide)]
  · rwa [memberOr_putNew_of_ne (by decide), memberOr_putNew_of_ne (by decide)]
  · rwa [memberOr_putNew_of_ne (by decide), memberOr_putNew_self, memberOr_putNew_of_ne (by decide)]
  · rwa [memberOr_putNew_self, memberOr_putNew_of_ne (by decide), memberOr_putNew_of_ne (by decide)]
  · rw [memberOr_obj h.get?_ui]
    rfl
  · rw [checkLook_congr ht', hst]

/-- Completing a specification once is enough. Members keep their values, those of the API and of the
user interface too; only the version is set. A specification that was accepted stays so. -/
theorem complete_settles (v : Json) (spec : Json.Members) (h : complete v = .ok spec) :
    complete (.obj spec) = .ok spec ∧ ∃ members : Json.Members, v = .obj members ∧
      spec.get? "spec_version" = some (.int 1) ∧
      (∀ name w, members.get? name = some w → name ≠ "spec_version" →
        ∃ w', spec.get? name = some w' ∧ (name ∉ ["api", "ui"] → w' = w) ∧ Extends w w' ∧
          ∀ inner u, w.get? inner = some u → w'.get? inner = some u) ∧
      ((∃ app, check members = .ok app) → ∃ app, check spec = .ok app) := by
  cases v with
  | obj members =>
    obtain ⟨db, models, api, ui, completed⟩ := completeMembers_eq_ok_iff.mp h
    refine ⟨completeMembers_eq_ok_iff.mpr ⟨db, models, api, ui, completed.again⟩, members, rfl,
      completed.get?_version, fun name w found other => ?_, ?_⟩
    · obtain ⟨w', there, extended, same⟩ := completed.kept found other
      exact ⟨w', there, same, extended, fun inner u => extended.get?⟩
    · rintro ⟨app, accepted⟩
      exact completed.accepted accepted
  | _ => cases h

/-- Notes without sections, and with a version that is read as the number one. -/
def bareNotes : Members :=
  [("spec_version", .bool true),
    ("db", .obj [("models", .arr [.obj [("name", .str "Note"), ("fields", .obj [("text", .str "text")])]])]),
    ("ui", .obj [("admin", .bool false)])]

theorem bareNotes_settles : ∃ spec, complete (.obj bareNotes) = .ok spec ∧
    complete (.obj spec) = .ok spec ∧ (∃ app, check bareNotes = .ok app) ∧
    (∃ app, check spec = .ok app) ∧
    ∃ ui, spec.get? "ui" = some ui ∧ ui.get? "admin" = some (.bool false) := by
  have made : (complete (.obj bareNotes)).toOption.map List.length = some 5 := by decide +kernel
  have passed : (check bareNotes).toOption.map (fun app => app.models.length) = some 1 := by
    decide +kernel
  obtain ⟨spec, made, -⟩ := exists_ok_of_toOption made
  obtain ⟨app, accepted, -⟩ := exists_ok_of_toOption passed
  obtain ⟨again, members, ⟨⟩, -, kept, stays⟩ := complete_settles _ spec made
  obtain ⟨ui, there, -, -, inner⟩ := kept "ui" _ rfl (by decide)
  exact ⟨spec, made, again, ⟨app, accepted⟩, stays ⟨app, accepted⟩, ui, there, inner "admin" _ rfl⟩

end Appwright.Spec
