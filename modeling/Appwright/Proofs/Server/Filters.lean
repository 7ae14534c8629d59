import Appwright.Proofs.Entries
import Appwright.Proofs.Text
import Appwright.Server.Admin

/-!
# Filters of a query and of a page

A listing is filtered by what its query says of a field, and by the page's default where the query
says nothing. But a query is read without its blank values, so a name that is given blank counts as
not given, and the default of the page comes back (`given_overrides_iff`).
-/

namespace Appwright

open List Entries Option Url

namespace Url

open Text

/-! ## Blank values -/

theorem exists_run (c : Char) (cs : List Char) :
    ∃ kind run more, asciiRuns (c :: cs) = (kind, c :: run) :: more := by
  rw [asciiRuns]
  split
  · split <;> exact ⟨_, _, _, rfl⟩
  · exact ⟨_, _, _, rfl⟩

theorem unquoteBytes_ne_nil (c : Char) (cs : List Char) : unquoteBytes (c :: cs) ≠ [] := by
  unfold unquoteBytes
  grind

theorem decodeLossy_ne_empty {bytes : List UInt8} (hb : bytes ≠ []) : decodeLossy bytes ≠ "" := by
  obtain ⟨b, rest, rfl⟩ := exists_cons_of_ne_nil hb
  rw [decodeLossy, decodeFrom, ne_eq, ← String.toList_eq_nil_iff, String.toList_ofList]
  split <;> exact cons_ne_nil _ _

/-- Only the empty text is written as nothing. -/
theorem unquote_ne_empty {s : String} (hs : s ≠ "") : unquote s ≠ "" := by
  obtain ⟨c, cs, chars⟩ := exists_cons_of_ne_nil (String.toList_eq_nil_iff.not.2 hs)
  rw [unquote, chars, map_cons]
  dsimp only
  obtain ⟨kind, run, more, runs⟩ := exists_run (if (c == '+') then ' ' else c)
    (cs.map fun c => if (c == '+') then ' ' else c)
  rw [runs, map_cons, String.join_cons, ne_eq, String.append_eq_empty_iff, not_and_or]
  refine .inl ?_
  dsimp only
  split
  · exact decodeLossy_ne_empty (unquoteBytes_ne_nil _ _)
  · simp

/-- The names of a query with their values, blank ones included. -/
def pairs (query : String) : List (String × String) :=
  (splitChar '&' query).map fun piece =>
    (cutText? "=" piece).elim (unquote piece, "") fun p => (unquote p.1, unquote p.2)

theorem filterMap_readField (query : String) :
    (splitChar '&' query).filterMap readField = (pairs query).filter fun e => e.2 ≠ "" := by
  rw [pairs]
  induction splitChar '&' query with
  | nil => rfl
  | cons piece rest ih =>
    rw [map_cons, filterMap_cons, filter_cons, ← ih, readField]
    cases cutText? "=" piece with
    | none => simp
    | some cut =>
      obtain ⟨name, v⟩ := cut
      by_cases hv : v = ""
      · subst hv
        simp [show unquote "" = "" from rfl]
      · simp [hv, unquote_ne_empty hv]

/-! ## Reading a query -/

/-- The values that a query gives a name, in order and without the blank ones. -/
def valuesOf (name query : String) : List String :=
  (((pairs query).filter fun e => e.2 ≠ "").filter fun e => e.1 = name).map Prod.snd

theorem addValue_eq_put (name v : String) (es : Entries (List String)) :
    addValue name v es = es.put name ((es.get? name).getD [] ++ [v]) := by
  induction es with
  | nil => rfl
  | cons e es ih =>
    obtain ⟨k, vs⟩ := e
    by_cases h : k = name <;> simp [addValue, put, get?, h, ih]

theorem get?_foldl_addValue (name : String) (ps : List (String × String)) (es : Entries (List String)) :
    (ps.foldl (fun fields f => addValue f.1 f.2 fields) es).get? name =
      let vs := (ps.filter fun e => e.1 = name).map Prod.snd
      if vs.isEmpty then es.get? name else some ((es.get? name).getD [] ++ vs) := by
  induction ps generalizing es with
  | nil => rfl
  | cons p ps ih =>
    rw [foldl_cons, ih, addValue_eq_put]
    by_cases h : p.1 = name
    · subst h
      simp [get?_put_self]
    · rw [get?_put_of_ne (Ne.symm h), filter_cons_of_neg (by simpa using h)]

/-- Only a name with a value that is not blank is read. -/
theorem get?_readForm (name query : String) : (readForm query).get? name =
    if (valuesOf name query).isEmpty then none else some (valuesOf name query) := by
  rw [readForm, filterMap_readField, get?_foldl_addValue]
  rfl

theorem has_readForm (name query : String) :
    (readForm query).has name = !(valuesOf name query).isEmpty := by
  rw [has, get?_readForm]
  cases valuesOf name query <;> rfl

theorem nodup_names_readForm (query : String) : (readForm query).names.Nodup := by
  have all (ps : List (String × String)) (es : Entries (List String)) (hd : es.names.Nodup) :
      (names (ps.foldl (fun fields f => addValue f.1 f.2 fields) es)).Nodup := by
    induction ps generalizing es with
    | nil => exact hd
    | cons p ps ih =>
      rw [foldl_cons, addValue_eq_put]
      exact ih _ (nodup_names_put hd p.1 _)
  exact all _ [] nodup_nil

theorem ne_empty_of_mem_valuesOf {name query v : String} (mem : v ∈ valuesOf name query) : v ≠ "" := by
  obtain ⟨e, kept, rfl⟩ := mem_map.1 mem
  simpa using (mem_filter.1 (mem_filter.1 kept).1).2

end Url

namespace Server

open Spec Text View

open Url (valuesOf readForm)

variable {m : Model} {params : Params} {field raw : String}

/-! ## What the query says -/

/-- The filter that a name of the query and its values stand for. -/
def filterOf (m : Model) (e : String × List String) : Option (String × String) := do
  let field ← afterText? filterHead e.1
  let raw ← e.2.head?
  if m.fields.has field && raw != "" then some (field, raw) else none

theorem filterOf_eq_some_iff {e : String × List String} {f : String × String} :
    filterOf m e = some f ↔ e.1 = filterHead ++ f.1 ∧ e.2.head? = some f.2 ∧
      m.fields.has f.1 ∧ f.2 ≠ "" := by
  obtain ⟨field, raw⟩ := f
  simp only [filterOf, bind_eq_bind, bind_eq_some_iff, afterText?_eq_some_iff]
  grind

/-- The filter of a field is the first value that the query gives it. -/
theorem get?_givenFilters_iff (hd : params.names.Nodup) :
    (givenFilters m params).get? field = some raw ↔
      firstValue? (filterHead ++ field) params = some raw ∧
        m.fields.has field ∧ raw ≠ "" := by
  have once : ((params.filterMap (filterOf m)).map Prod.fst).Nodup := by
    rw [names, Nodup, pairwise_map] at hd
    rw [Nodup, pairwise_map]
    refine hd.filterMap (filterOf m) fun a b ne f hf g hg same => ne ?_
    rw [(filterOf_eq_some_iff.1 hf).1, (filterOf_eq_some_iff.1 hg).1, same]
  have given : givenFilters m params = ofPairs (params.filterMap (filterOf m)) := rfl
  rw [given, firstValue?, bind_eq_some_iff]
  constructor
  · intro found
    obtain ⟨e, mem, made⟩ := mem_filterMap.1 (mem_of_mem_ofPairs (mem_of_get? found))
    obtain ⟨name, first, known, filled⟩ := filterOf_eq_some_iff.1 made
    refine ⟨⟨e.2, ?_, first⟩, known, filled⟩
    rw [← name]
    exact get?_of_mem hd mem
  · rintro ⟨⟨values, found, first⟩, known, filled⟩
    refine get?_ofPairs once (mem_filterMap.2 ⟨_, mem_of_get? found, ?_⟩)
    exact filterOf_eq_some_iff.2 ⟨rfl, first, known, filled⟩

/-! ## What the page says -/

/-- The default of a field: the first that is not blank. -/
def defaultOf (field : String) (defaults : Entries String) : Option String :=
  (defaults.find? fun e => e.1 = field && e.2 ≠ "").map Prod.snd

theorem get?_filtersOf (m : Model) (params : Params) (field : String) (defaults : Entries String) :
    (filtersOf m params defaults).get? field = ((givenFilters m params).get? field).or
      (if params.has (filterHead ++ field) || !m.fields.has field then none
        else defaultOf field defaults) := by
  unfold filtersOf
  generalize givenFilters m params = filters
  induction defaults generalizing filters with
  | nil => simp [defaultOf]
  | cons d rest ih =>
    obtain ⟨name, text⟩ := d
    rw [foldl_cons, ih]
    by_cases here : name = field
    · subst here
      cases found : filters.get? name with
      | some v => simp [has_of_get? found, found]
      | none =>
        have absent : filters.has name = false := by simp [has, found]
        by_cases blank : text = ""
        · simp [found, blank, defaultOf]
        · cases said : params.has (filterHead ++ name) with
          | true => simp [found, said]
          | false =>
            cases known : m.fields.has name with
            | true => simp [absent, said, known, blank, defaultOf, get?_put_self]
            | false => simp [found, known]
    · have other : defaultOf field ((name, text) :: rest) = defaultOf field rest := by
        simp [defaultOf, here]
      rw [other]
      dsimp only
      split
      · rfl
      · rw [get?_put_of_ne (Ne.symm here)]

theorem get?_filters_adminAsk (m : Model) (page : Option Page) (field query : String) :
    (adminAsk m page (readForm query)).1.filters.get? field = if m.fields.has field then
      (valuesOf (filterHead ++ field) query).head?.or (defaultOf field ((page.bind Page.filters).getD []))
      else none := by
  have given : (givenFilters m (readForm query)).get? field = if m.fields.has field then
      (valuesOf (filterHead ++ field) query).head? else none := by
    apply ext
    intro raw
    rw [get?_givenFilters_iff (nodup_names_readForm query), firstValue?, get?_readForm]
    have filled := @Url.ne_empty_of_mem_valuesOf (filterHead ++ field) query raw
    grind [mem_of_mem_head?]
  rw [adminAsk, get?_filtersOf, given, has_readForm]
  cases valuesOf (filterHead ++ field) query <;> cases m.fields.has field <;> simp

/-- A value that the query gives a field of the model comes before the page's default only if it is
not blank. The filter of the field is the first value that is not blank, and if there is none, the
page's default: a field that the query names with a blank value counts as not named. -/
theorem given_overrides_iff (m : Model) (page : Option Page) (field query : String) :
    let filters := (adminAsk m page (Url.readForm query)).1.filters
    let given := (Url.valuesOf (View.filterHead ++ field) query).head?
    let default := defaultOf field ((page.bind Page.filters).getD [])
    (filters.get? field = if m.fields.has field then given.or default else none) ∧
    (filters.get? field = (if m.fields.has field then given else none) ↔
      given.isSome ∨ default = none ∨ ¬ m.fields.has field) := by
  refine ⟨get?_filters_adminAsk m page field query, ?_⟩
  rw [get?_filters_adminAsk]
  cases (Url.valuesOf (View.filterHead ++ field) query).head? <;> cases m.fields.has field <;> simp

def deal : Model where
  name := "Deal"
  fields := [("stage", .text)]

def dealPage : Page where
  path := "/deals"
  model := "Deal"
  filters := some [("stage", "Open")]

/-- The form's choice of any stage does not survive: the query names the field, and the default is
back. -/
theorem blank_stage_is_open : ("f_stage", "") ∈ Url.pairs "q=&f_stage=" ∧
    (adminAsk deal (some dealPage) (Url.readForm "q=&f_stage=")).1.filters =
      [("stage", "Open")] := by
  decide +kernel

end Server

end Appwright
