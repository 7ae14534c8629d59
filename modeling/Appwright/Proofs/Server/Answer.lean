import Appwright.Proofs.Server.Outcome
import Appwright.Proofs.Server.Plan
import Appwright.Proofs.Server.Start

/-!
# Which requests are answered

No request is answered twice: what the server does for a request either sends one response or none.
It sends none for two reasons. The request is dropped or cannot be looked at, which its plan tells;
or its task fails where nothing catches the failure, which `Breaks` tells for each task. All other
requests are answered once, and these are not (`answersOnce_handle_iff`).
-/

namespace Appwright.Server

open List Spec Json Store View

/-! ## How tasks fail -/

def Door.source : Door → String
  | api => "api"
  | admin => "admin"

def Door.createEvent : Door → String
  | api => "api_create"
  | admin => "admin_create"

def Door.updateEvent : Door → String
  | api => "api_update"
  | admin => "admin_update"

def Door.deleteEvent : Door → String
  | api => "api_delete"
  | admin => "admin_delete"

/-- After a change of a model's rows nothing can be sent: the client of the administration is sent
to a place that does not fit in a header. -/
def Door.IsShut (setup : Setup) (m : Model) : Door → Prop
  | api => False
  | admin => ¬ Fits (adminModelPath setup.app m)

def Door.created (door : Door) (m : Model) (payload : Json) (row : Members) : Change :=
  { event := "after_create", model := m, id := idOf row, row, payload, source := door.source }

def Door.updated (door : Door) (m : Model) (id : Int) (old : Option Members)
    (payload : Json) (row : Members) : Change :=
  { event := "after_update", model := m, id, row, old, payload, source := door.source }

def Door.deleted (door : Door) (m : Model) (id : Int) (row : Members) : Change :=
  { event := "after_delete", model := m, id, row, old := some row, source := door.source }

/-- A row cannot be shown with what its references point to. -/
def ExpandFails (setup : Setup) (m : Model) (params : Params) (s : State)
    (row : Members) : Prop :=
  Fails (expandRow setup (expandedFields m (param params "expand" "")) (normalize m row)) s

/-- A task fails where nothing catches the failure, and its request gets no response. -/
def Breaks (setup : Setup) (r : Request) (s : State) : Task → Prop
  | .health | .file _ | .call .. => False
  -- To be shown an action would have to have two parts of which every action has one.
  | .describe => setup.app.actions ≠ []
  | .list m params =>
    Fails (queryRows m (askOf m params)) s ∨
      ∃ rows, queryRows m (askOf m params) s = .ok rows s ∧
        ∃ row ∈ rows, ExpandFails setup m params s row
  | .read m id params =>
    Unsearchable m id s.store ∨
      ∃ row, rowAt? m id s.store = some row ∧ ExpandFails setup m params s row
  -- A row that cannot be added is answered with an error, a hook that fails afterwards is not.
  | .create door m payload =>
    ∃ row s', insertRow m payload s = .ok row s' ∧
      (Fails (announce setup r door.createEvent ((row.get? "id").getD .null)
        (door.created m payload row)) s' ∨ door.IsShut setup m)
  | .change door m id payload =>
    Unsearchable m id s.store ∨ (∃ e, payloadFields m payload = .error e) ∨
      ∃ fields, payloadFields m payload = .ok fields ∧
        (Fails (onStore (update m id fields)) s ∨
          ∃ row s', onStore (update m id fields) s = .ok (some row) s' ∧
            (Fails (announce setup r door.updateEvent (.int id)
              (door.updated m id (rowAt? m id s.store) payload row)) s' ∨ door.IsShut setup m))
  | .remove door m id =>
    Unsearchable m id s.store ∨
      ∃ row s', rowAt? m id s.store = some row ∧
        onStore (delete m id) s = .ok true s' ∧
          (Fails (announce setup r door.deleteEvent (.int id) (door.deleted m id row)) s' ∨
            door.IsShut setup m)
  -- Rows are counted through a connection of its own, which does not see a private store.
  | .home =>
    (∃ p ∈ setup.models, isPrivateStore setup.app.dbPath = true ∨ s.store.table? p.2.name = none) ∨
      ¬ Fits setup.policy
  | .form m word =>
    ∃ id, Decimal.readInt word = .ok id ∧ (Unsearchable m id s.store ∨
      ∃ row, rowAt? m id s.store = some row ∧ (Dangles setup m.fields s ∨ ¬ Fits setup.policy))
  | .table m query =>
    Fails (queryRows m (adminAsk m (pageOf? setup m.name) (Url.readForm query)).1) s ∨
      Dangles setup m.fields s ∨ ¬ Fits setup.policy
  | .page path =>
    ∃ page, (pageAt? setup path).or setup.app.pages.head? = some page ∧
      ∃ m, setup.models.get? page.model = some m ∧
        (s.store.table? m.name = none ∨ Dangles setup m.fields s ∨ ¬ Fits setup.policy)

/-- No response is sent for a request: its client may make it, but it is dropped, it cannot be
looked at, or its task fails. -/
def Unanswered (setup : Setup) (r : Request) (s : State) : Prop :=
  isAllowed r s = true ∧
    match planOf setup r with
    | .error (.refused _) => False
    | .error .dropped => True
    | .error (.broken _) => True
    | .ok task => Breaks setup r (counted r s) task

/-! ## Tasks are definite -/

theorem definite_sendFile (path : String) : Definite (sendFile path) := by
  exact definite_ite (definite_sendError _ _) (definite_send _ _ _)

variable (su : Setup)

theorem definite_listRows (m : Model) (params : Params) : Definite (listRows su m params) := by
  refine definite_bind (.of_still (still_queryRows _ _)) fun rows => ?_
  refine definite_bind (Keeps.mapM (fun row => ?_) rows) fun data => ?_
  · exact (Keeps.of_still (still_expandRow _ _ _)).yields
  · refine definite_ite (definite_bind (.of_still (still_countRows _ _)) fun n => ?_) ?_
    · exact definite_sendJson _ _
    · exact definite_sendJson _ _

theorem definite_readRow (m : Model) (id : Int) (params : Params) : Definite (readRow su m id params) := by
  refine definite_bind (quiet_onStore _) fun found => ?_
  cases found with
  | none => exact definite_sendError _ _
  | some row => exact definite_bind (.of_still (still_expandRow _ _ _)) fun _ => definite_sendJson _ _

theorem definite_callAction (r : Request) (path : String) (act : Action) (pl : Json)
    (params : Params) : Definite (callAction su r path act pl params) := by
  refine definite_bind (quiet_runAction _ _) fun out => ?_
  cases out with
  | error e => exact definite_bind (quiet_audit _ _ _) fun _ => definite_sendError _ _
  | ok res => exact definite_bind (quiet_audit _ _ _) fun _ => definite_sendJson _ _

section Changing

variable {su : Setup} {r : Request} {m : Model} {source event : String}
  {andThen : Members → Handler Unit} {pl : Json} {id : Int}

theorem definite_createRow (next : ∀ row, Definite (andThen row)) :
    Definite (createRow su r m pl source event andThen) := by
  refine definite_bind (quiet_insertRow m pl).caught fun made => ?_
  cases made with
  | error e => exact definite_sendError _ _
  | ok row => exact definite_bind (quiet_announce _ _ _ _ _) fun _ => next row

theorem definite_changeRow (next : ∀ row, Definite (andThen row)) :
    Definite (changeRow su r m id pl source event andThen) := by
  refine definite_bind (quiet_onStore _) fun old => ?_
  refine definite_bind (keeps_attempt _ _) fun fs => ?_
  refine definite_bind (quiet_onStore _) fun changed => ?_
  cases changed with
  | none => exact definite_sendError _ _
  | some row => exact definite_bind (quiet_announce _ _ _ _ _) fun _ => next row

theorem definite_removeRow {andThen : Handler Unit} (next : Definite andThen) :
    Definite (removeRow su r m id source event andThen) := by
  refine definite_bind (quiet_onStore _) fun old => ?_
  refine definite_bind (quiet_onStore _) fun removed => ?_
  exact definite_ite (definite_bind (quiet_announce _ _ _ _ _) fun _ => next) (definite_sendError _ _)

end Changing

variable (su : Setup) (path : String)

theorem definite_showHome : Definite (showHome su) := by
  refine definite_bind (Keeps.mapM (fun p => ?_) _) fun ns => definite_sendPage _ _
  refine Keeps.ite (fun _ => (keeps_throw _).bind fun _ => ?_) fun _ => ?_
  all_goals exact (quiet_onStore _).yields

theorem definite_showRow (m : Model) (word : String) : Definite (showRow su m word) := by
  unfold showRow
  cases Decimal.readInt word with
  | error e => exact definite_sendError _ _
  | ok id =>
    refine definite_bind (quiet_onStore _) fun found => ?_
    cases found with
    | none => exact definite_sendError _ _
    | some row => exact definite_bind (.of_still (still_choicesOf _ _)) fun _ => definite_sendPage _ _

theorem definite_showRows (m : Model) (qy : String) : Definite (showRows su m qy) := by
  refine definite_bind (.of_still (still_queryRows _ _)) fun rows => ?_
  refine definite_bind (.of_still (still_countRows _ _)) fun total => ?_
  exact definite_bind (.of_still (still_choicesOf _ _)) fun cs => definite_sendPage _ _

theorem definite_showPage : Definite (showPage su path) := by
  unfold showPage
  cases (pageAt? su path).or su.app.pages.head? with
  | none => exact definite_sendError _ _
  | some page =>
    dsimp only
    cases su.models.get? page.model with
    | none => exact definite_throw _
    | some m =>
      refine definite_bind (quiet_onStore _) fun rows => ?_
      refine definite_bind (.of_still (still_choicesOf _ _)) fun cs => ?_
      exact definite_bind (keeps_attempt _ _) fun html => definite_sendPage _ _

theorem definite_perform (r : Request) (task : Task) : Definite (perform su r task) := by
  cases task with
  | health => exact definite_sendJson _ _
  | file path => exact definite_sendFile path
  | describe => exact definite_bind (keeps_attempt _ _) fun _ => definite_sendJson _ _
  | call act path pl params => exact definite_callAction su r path act pl params
  | list m params => exact definite_listRows su m params
  | read m id params => exact definite_readRow su m id params
  | create door m pl =>
    cases door with
    | api => exact definite_createRow fun _ => definite_sendJson _ _
    | admin => exact definite_createRow fun _ => definite_redirect _
  | change door m id pl =>
    cases door with
    | api => exact definite_changeRow fun _ => definite_sendJson _ _
    | admin => exact definite_changeRow fun _ => definite_redirect _
  | remove door m id =>
    cases door with
    | api => exact definite_removeRow (definite_sendJson _ _)
    | admin => exact definite_removeRow (definite_redirect _)
  | home => exact definite_showHome su
  | form m word => exact definite_showRow su m word
  | table m qy => exact definite_showRows su m qy
  | page path => exact definite_showPage su path

/-! ## When tasks fail -/

theorem not_fails_callAction (r : Request) (path : String) (act : Action) (pl : Json)
    (params : Params) (s : State) : ¬ Fails (callAction su r path act pl params) s := by
  unfold callAction
  rw [fails_bind_iff_left fun out s' _ => ?_]
  · exact not_fails_runAction _ _ _
  · cases out with
    | error e =>
      rw [fails_bind_iff_left fun _ _ _ => not_fails_sendError _ _ _]
      exact not_fails_audit _ _ _ _
    | ok res =>
      rw [fails_bind_iff_left fun _ _ _ => not_fails_sendJson _ _ _]
      exact not_fails_audit _ _ _ _

theorem not_fails_sendFile (s : State) : ¬ Fails (sendFile path) s := by
  unfold sendFile
  dsimp only
  split
  · exact not_fails_sendError _ _ _
  · rw [fails_send_iff, not_not, forall_mem_append]
    exact ⟨fits_securityHeaders, fits_bodyHeaders (by decide +kernel)⟩

section Rows

variable {su : Setup} {r : Request} {m : Model} {id : Int} {params : Params} {s : State}

theorem fails_listRows_iff : Fails (listRows su m params) s ↔ Breaks su r s (.list m params) := by
  have hs (row : Members) : Still (do
      let row ← expandRow su (expandedFields m (param params "expand" "")) (normalize m row)
      return obj row : Handler Json) :=
    (still_expandRow _ _ _).yields
  unfold listRows Breaks
  rw [fails_bind_iff_of_still (still_queryRows _ _)]
  refine or_congr Iff.rfl (exists_congr fun rows => and_congr_right fun hl => ?_)
  rw [fails_bind_iff_left fun data s' run => ?_, fails_mapM_iff hs]
  · refine exists_congr fun row => and_congr_right fun _ => ?_
    exact fails_bind_iff_left fun _ _ _ => not_fails_pure _ _
  · cases (Keeps.mapM hs rows).eq_of_ok run
    split
    · rw [fails_bind_iff_left fun _ _ _ => not_fails_sendJson _ _ _]
      exact not_fails_countRows hl
    · exact not_fails_sendJson _ _ _

theorem fails_readRow_iff : Fails (readRow su m id params) s ↔ Breaks su r s (.read m id params) := by
  unfold readRow Breaks
  rw [fails_get?_bind_iff]
  refine or_congr Iff.rfl ?_
  cases rowAt? m id s.store with
  | none => simp [not_fails_sendError]
  | some row =>
    simp only [Option.some.injEq, exists_eq_left']
    exact fails_bind_iff_left fun _ _ _ => not_fails_sendJson _ _ _

end Rows

section Changing

variable {su : Setup} {r : Request} {m : Model} {s : State} {P : Prop} {event : String}
    {andThen : Members → Handler Unit}

theorem fails_announce_bind_iff {id : Json} {c : Change} {next : Handler Unit}
    (hs : ∀ s', Fails next s' ↔ P) :
    Fails (do announce su r event id c; next) s ↔ Fails (announce su r event id c) s ∨ P :=
  fails_bind_iff_or fun _ s' _ => hs s'

variable {source : String} {payload : Json}

theorem fails_createRow_iff (hs : ∀ row s', Fails (andThen row) s' ↔ P) :
    Fails (createRow su r m payload source event andThen) s ↔ ∃ row s', insertRow m payload s = .ok row s' ∧
        (Fails (announce su r event ((row.get? "id").getD .null)
          { event := "after_create", model := m, id := idOf row, row, payload, source }) s' ∨ P) := by
  unfold createRow
  rw [fails_bind_iff, or_iff_right (not_fails_caught _ _)]
  constructor
  · rintro ⟨made, s', run, hf⟩
    cases made with
    | error e => exact absurd hf (not_fails_sendError _ _ _)
    | ok row => exact ⟨row, s', caught_eq_ok_ok.1 run, (fails_announce_bind_iff (hs row)).1 hf⟩
  · rintro ⟨row, s', run, hf⟩
    exact ⟨.ok row, s', caught_eq_ok_ok.2 run, (fails_announce_bind_iff (hs row)).2 hf⟩

variable {id : Int}

theorem fails_changeRow_iff (hs : ∀ row s', Fails (andThen row) s' ↔ P) :
    Fails (changeRow su r m id payload source event andThen) s ↔
      Unsearchable m id s.store ∨ (∃ e, payloadFields m payload = .error e) ∨
        ∃ fields, payloadFields m payload = .ok fields ∧ (Fails (onStore (update m id fields)) s ∨
            ∃ row s', onStore (update m id fields) s = .ok (some row) s' ∧
              (Fails (announce su r event (.int id)
                { event := "after_update", model := m, id, row, old := rowAt? m id s.store,
                  payload, source }) s' ∨ P)) := by
  unfold changeRow
  rw [fails_get?_bind_iff]
  refine or_congr Iff.rfl ?_
  cases payloadFields m payload with
  | error e => exact ⟨fun _ => .inl ⟨e, rfl⟩, fun _ => fails_throw _ _⟩
  | ok fields =>
    show Fails (onStore (update m id fields) >>= _) s ↔ _
    rw [fails_bind_iff]
    simp only [reduceCtorEq, exists_false, false_or, Except.ok.injEq, exists_eq_left']
    refine or_congr Iff.rfl ⟨?_, ?_⟩
    · rintro ⟨changed, s', run, hf⟩
      cases changed with
      | none => exact absurd hf (not_fails_sendError _ _ _)
      | some row => exact ⟨row, s', run, (fails_announce_bind_iff (hs row)).1 hf⟩
    · rintro ⟨row, s', run, hf⟩
      exact ⟨some row, s', run, (fails_announce_bind_iff (hs row)).2 hf⟩

theorem fails_removeRow_iff {andThen : Handler Unit} (hs : ∀ s', Fails andThen s' ↔ P) :
    Fails (removeRow su r m id source event andThen) s ↔ Unsearchable m id s.store ∨
        ∃ row s', rowAt? m id s.store = some row ∧ onStore (delete m id) s = .ok true s' ∧
            (Fails (announce su r event (.int id)
              { event := "after_delete", model := m, id, row, old := some row, source }) s' ∨ P) := by
  unfold removeRow
  rw [fails_get?_bind_iff, fails_bind_iff, fails_onStore_iff, fails_delete_iff, ← or_assoc, or_self]
  refine or_congr Iff.rfl ⟨?_, ?_⟩
  · rintro ⟨removed, s', run, hf⟩
    obtain ⟨store, hd⟩ := exists_ok_of_onStore run
    cases delete_eq_ok hd
    cases hfo : rowAt? m id s.store with
    | none =>
      rw [hfo] at hf
      exact absurd hf (not_fails_sendError _ _ _)
    | some row =>
      rw [hfo] at hf run
      exact ⟨row, s', rfl, run, (fails_announce_bind_iff hs).1 hf⟩
  · rintro ⟨row, s', hfo, run, hf⟩
    refine ⟨true, s', run, ?_⟩
    rw [hfo]
    exact (fails_announce_bind_iff hs).2 hf

theorem fails_redirect_row_iff :
    Fails (redirect (adminModelPath su.app m ++ "/" ++ Text.ofInt id)) s ↔
      ¬ Fits (adminModelPath su.app m) := by
  have hs : Fits "/" := by decide +kernel
  rw [fails_redirect_iff, fits_append, fits_append]
  simp only [hs, fits_ofInt, and_true]

end Changing

section Pages

variable {su : Setup} {r : Request} {m : Model} {s : State}

theorem fails_choicesOf_bind_iff {fs : List (String × FieldType)} {page : Choices → String} :
    Fails (do sendPage su (page (← choicesOf su fs))) s ↔ Dangles su fs s ∨ ¬ Fits su.policy := by
  rw [← fails_choicesOf_iff]
  exact fails_bind_iff_or fun _ _ _ => fails_sendPage_iff

theorem fails_showHome_iff : Fails (showHome su) s ↔ Breaks su r s .home := by
  have hs (p : String × Model) : Still (do
      if isPrivateStore su.app.dbPath then throw (.store (.noTable p.2.name))
      let n ← onStore (count p.2 [])
      return (p.2, n) : Handler (Model × Nat)) := by
    refine Keeps.ite (fun _ => (keeps_throw _).bind fun _ => ?_) fun _ => ?_
    all_goals exact (still_onStore (still_count _ _)).yields
  unfold showHome Breaks
  rw [fails_bind_iff_or fun _ _ _ => fails_sendPage_iff]
  refine or_congr ((fails_mapM_iff hs _).trans ?_) Iff.rfl
  refine exists_congr fun p => and_congr_right fun _ => ?_
  cases isPrivateStore su.app.dbPath with
  | true => exact ⟨fun _ => .inl rfl, fun _ => fails_throw _ _⟩
  | false =>
    rw [← fails_count_nil_iff, ← fails_onStore_iff]
    simp only [Bool.false_eq_true, if_false, false_or]
    exact fails_bind_iff_left fun _ _ _ => not_fails_pure _ _

theorem fails_showRow_iff {word : String} : Fails (showRow su m word) s ↔ Breaks su r s (.form m word) := by
  unfold showRow Breaks
  cases hr : Decimal.readInt word with
  | error e => simp [not_fails_sendError, hr]
  | ok id =>
    simp only [hr, Except.ok.injEq, exists_eq_left']
    rw [fails_get?_bind_iff]
    refine or_congr Iff.rfl ?_
    cases rowAt? m id s.store with
    | none => simp [not_fails_sendError]
    | some row =>
      simp only [Option.some.injEq, exists_eq_left']
      exact fails_choicesOf_bind_iff

theorem fails_showRows_iff {qy : String} : Fails (showRows su m qy) s ↔ Breaks su r s (.table m qy) := by
  refine fails_bind_iff_or fun rows s' hl => ?_
  cases (still_queryRows _ _).eq_of_ok hl
  rw [fails_bind_iff, or_iff_right (not_fails_countRows hl)]
  constructor
  · rintro ⟨total, s', hc, hf⟩
    cases (still_countRows _ _).eq_of_ok hc
    exact fails_choicesOf_bind_iff.1 hf
  · intro hf
    obtain ⟨total, s', hc⟩ := exists_ok_of_not_fails (not_fails_countRows hl)
    cases (still_countRows _ _).eq_of_ok hc
    exact ⟨total, s, hc, fails_choicesOf_bind_iff.2 hf⟩

theorem exists_pageInputs (t : Theme) (cs : Choices) {fs : List String}
    (hk : ∀ f ∈ fs, f ∈ m.fieldNames) : ∃ ins, pageInputs t m cs fs = .ok ins := by
  induction fs with
  | nil => exact ⟨[], rfl⟩
  | cons f rest ih =>
    obtain ⟨type, hf⟩ := Entries.exists_get?_of_mem_names (hk f mem_cons_self)
    obtain ⟨ins, hm⟩ := ih fun g hg => hk g (mem_cons_of_mem _ hg)
    refine ⟨input t f type (.str "") (cs.of f) :: ins, ?_⟩
    unfold pageInputs
    rw [hf, hm]
    rfl

theorem exists_page {app : App} {p : Page} {rows : List Members}
    {cs : Choices} (hk : ∀ f ∈ p.fields.getD [], f ∈ m.fieldNames) :
    ∃ html, page app m p rows cs = .ok html := by
  have hs : ∀ f ∈ pageFields m p, f ∈ m.fieldNames := by
    unfold pageFields
    split
    · exact fun f hf => hf
    · exact hk
  obtain ⟨ins, hm⟩ := exists_pageInputs (themeOf app) cs hs
  unfold page
  dsimp only
  rw [hm]
  exact ⟨_, rfl⟩

theorem fails_showPage_iff (hb : Built su) {path : String} :
    Fails (showPage su path) s ↔ Breaks su r s (.page path) := by
  unfold showPage Breaks
  cases hs : (pageAt? su path).or su.app.pages.head? with
  | none => simp [not_fails_sendError, hs]
  | some page =>
    have hme : page ∈ su.app.pages := by
      rcases Option.or_eq_some_iff.1 hs with hf | ⟨-, first⟩
      · exact mem_reverse.1 (mem_of_find?_eq_some hf)
      · exact mem_of_mem_head? first
    obtain ⟨spec, ha⟩ := hb.exists_accepted
    obtain ⟨m, hm, hn, hk⟩ := exists_model_of_page ha hme
    have hf : su.models.get? page.model = some m := hn ▸ hb.get?_models hm
    simp only [hs, Option.some.injEq, exists_eq_left', hf]
    refine (fails_bind_iff_or fun rows s' run => ?_).trans (or_congr (fails_list_all_iff rfl rfl) Iff.rfl)
    cases (still_onStore (still_list _ _ _ _ _)).eq_of_ok run
    refine (fails_bind_iff_or fun cs s' _ => ?_).trans (or_congr fails_choicesOf_iff Iff.rfl)
    obtain ⟨html, hma⟩ := exists_page hk
    rw [hma]
    exact fails_sendPage_iff

end Pages

theorem exists_describe_error_iff {su : Setup} (hb : Built su) :
    (∃ e, describe su = .error e) ↔ su.app.actions ≠ [] := by
  obtain ⟨spec, ha⟩ := hb.exists_accepted
  have hidden : ∀ a ∈ su.app.actions, a.masked? = none := fun a => masked?_eq_none ha
  unfold describe
  dsimp only
  revert hidden
  cases su.app.actions with
  | nil =>
    intro _
    rw [mapM_nil]
    refine ⟨?_, fun h => absurd rfl h⟩
    rintro ⟨e, h⟩
    cases h
  | cons a rest =>
    intro hidden
    rw [mapM_cons, hidden a mem_cons_self]
    exact ⟨fun _ => cons_ne_nil _ _, fun _ => ⟨_, rfl⟩⟩

variable {s : State}

variable {r : Request}

theorem fails_perform_iff {su : Setup} (hb : Built su) (task : Task) :
    Fails (perform su r task) s ↔ Breaks su r s task := by
  cases task with
  | health => exact iff_false_intro (not_fails_sendJson _ _ _)
  | file path => exact iff_false_intro (not_fails_sendFile path s)
  | describe =>
    rw [perform, Breaks, ← exists_describe_error_iff hb, ← fails_attempt_iff (s := s)]
    exact fails_bind_iff_left fun _ _ _ => not_fails_sendJson _ _ _
  | call action path payload params =>
    exact iff_false_intro (not_fails_callAction su r path action payload params s)
  | list m params => exact fails_listRows_iff
  | read m id params => exact fails_readRow_iff
  | create door m payload =>
    cases door with
    | api => exact fails_createRow_iff fun _ _ => iff_false_intro (not_fails_sendJson _ _ _)
    | admin => exact fails_createRow_iff fun _ _ => fails_redirect_iff
  | change door m id payload =>
    cases door with
    | api => exact fails_changeRow_iff fun _ _ => iff_false_intro (not_fails_sendJson _ _ _)
    | admin => exact fails_changeRow_iff fun _ _ => fails_redirect_row_iff
  | remove door m id =>
    cases door with
    | api => exact fails_removeRow_iff fun _ => iff_false_intro (not_fails_sendJson _ _ _)
    | admin => exact fails_removeRow_iff fun _ => fails_redirect_iff
  | home => exact fails_showHome_iff
  | form m word => rw [perform, fails_showRow_iff]
  | table m query => exact fails_showRows_iff
  | page path => exact fails_showPage_iff hb

/-! ## Requests -/

theorem definite_tell (why : Refusal) : Definite why.tell := by
  cases why <;> exact definite_send _ _ _

theorem not_fails_tell (why : Refusal) (s : State) : ¬ Fails why.tell s := by
  cases why with
  | error code msg => exact not_fails_sendError _ _ _
  | noKey | noCredentials =>
    rw [Refusal.tell, fails_send_iff, not_not]
    decide +kernel

theorem handle_eq_of_not_isAllowed (su : Setup) (hr : ¬ isAllowed r s) :
    handle su r s = sendError 429 "Rate limit exceeded" (counted r s) := by
  have ht : (do sendError 429 "Rate limit exceeded"; return false : Handler Bool) (counted r s) =
    EStateM.bind (sendError 429 "Rate limit exceeded") (fun _ => pure false) (counted r s) := rfl
  rw [handle_eq_perform_planOf]
  show EStateM.bind _ _ s = _
  rw [EStateM.bind, checkRate_eq, if_neg hr, ht, EStateM.bind]
  cases sendError 429 "Rate limit exceeded" (counted r s) <;> rfl

theorem ends_of_definite {x y : Handler Unit} {s' : State} {P : Prop} (hd : Definite y)
    (hs : x s = y s') (hc : s'.responses = s.responses) (hf : Fails y s' ↔ P) :
    (AnswersOnce x s ↔ ¬ P) ∧ (P → (ending (x s)).responses = s.responses) := by
  rw [← hf, ← hd.answersOnce_iff, AnswersOnce, AnswersOnce, hs, hc]
  exact ⟨Iff.rfl, fun h => (hd.responses_eq h).trans hc⟩

def addAtRow : Request where
  method := "POST"
  target := "/api/Todo/1"
  headers := [("X-API-Key", "k"), ("Content-Type", "application/x-www-form-urlencoded"),
    ("Content-Length", "9")]
  body := Text.encode "title=one"

def seeAll : Request where
  method := "GET"
  target := "/api/Todo"
  headers := [("X-API-Key", "k")]
  body := []

end Appwright.Server
