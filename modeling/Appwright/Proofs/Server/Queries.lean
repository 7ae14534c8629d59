import Appwright.Proofs.Entries
import Appwright.Proofs.Spec.Accepted
import Appwright.Proofs.Store.Statements
import Appwright.Server.Rows

/-!
# The statements of a request's queries

What a request gives goes into a statement as a value that is bound to it, never as a part of its
text. The text shows which fields are filtered, whether a text is searched and how rows are ordered,
all in names that the model has.
-/

namespace Appwright.Server

open List Entries Spec Store

open Store (Clause Spelled Identified namesOf)

variable {m : Model} {query : String} {filters : Entries String} {cs : List Clause}
  {e : String × String} {params : Params}

/-! ## Clauses -/

def filterText (m : Model) (field : String) : String :=
  let type := (m.fields.get? field).getD .text
  if type = .text ∨ type = .json then field ++ " LIKE ?" else field ++ " = ?"

theorem filterClause_eq_ok {filter : String × String} {c : Clause} (hm : filterClause m filter = .ok c) :
    c.statement = filterText m filter.1 ∧ clauseFields [c] = [filter.1] := by
  obtain ⟨fd, raw⟩ := filter
  unfold filterClause at hm
  unfold filterText
  dsimp only at hm ⊢
  split at hm
  · next ht =>
    cases hm
    rw [ht, if_pos (.inl rfl)]
    exact ⟨rfl, rfl⟩
  · next ht =>
    cases hm
    rw [ht, if_pos (.inr rfl)]
    exact ⟨rfl, rfl⟩
  · next hno hn =>
    obtain ⟨v, -, rfl⟩ := except_map_eq_ok hm
    rw [if_neg (not_or.2 ⟨hno, hn⟩)]
    exact ⟨rfl, rfl⟩

theorem clausesOf_eq_ok (hm : clausesOf m query filters = .ok cs) :
    ∃ tests, cs = searchClauses m query ++ tests ∧
      Forall₂ (fun filter c => filterClause m filter = .ok c) filters tests := by
  obtain ⟨tests, he, ⟨⟩⟩ := of_bind_ok hm
  exact ⟨tests, rfl, mapM_eq_ok_iff.1 he⟩

theorem statement_searchClauses {b : String} (ha : query = "" ↔ b = "") :
    (searchClauses m query).map Clause.statement = (searchClauses m b).map Clause.statement := by
  have hs : query.isEmpty = b.isEmpty := by
    rw [Bool.eq_iff_iff, String.isEmpty_iff, String.isEmpty_iff, ha]
  unfold searchClauses
  rw [hs]
  split
  · rfl
  · rfl

theorem statement_filterClauses {tests : List Clause}
    (he : Forall₂ (fun filter c => filterClause m filter = .ok c) filters tests) :
    tests.map Clause.statement = filters.names.map (filterText m) := by
  induction he with
  | nil => rfl
  | cons first hr ih =>
    rw [map_cons, ih, (filterClause_eq_ok first).1]
    rfl

theorem statement_clausesOf {qy' : String} {filters' : Entries String} {cs' : List Clause}
    (hm : clausesOf m query filters = .ok cs)
    (hm' : clausesOf m qy' filters' = .ok cs') (hs : query = "" ↔ qy' = "")
    (hf : filters.names = filters'.names) :
    cs.map Clause.statement = cs'.map Clause.statement := by
  obtain ⟨tests, rfl, he⟩ := clausesOf_eq_ok hm
  obtain ⟨tests', rfl, he'⟩ := clausesOf_eq_ok hm'
  rw [map_append, map_append, statement_searchClauses hs,
    statement_filterClauses he, statement_filterClauses he', hf]

/-! ## Fields -/

theorem mem_names_of_mem_textFields {fd : String} (mem : fd ∈ textFields m) : fd ∈ m.fields.names := by
  obtain ⟨f, ha, rfl⟩ := mem_map.1 mem
  exact mem_map_of_mem (mem_of_mem_filter ha)

theorem mem_names_of_mem_givenFilters (mem : e ∈ givenFilters m params) : e.1 ∈ m.fields.names := by
  obtain ⟨⟨name, vs⟩, -, hf⟩ := mem_filterMap.1 (mem_of_mem_ofPairs mem)
  simp only [Option.bind_eq_bind, Option.bind_eq_some_iff] at hf
  obtain ⟨fd, -, raw, -, hk⟩ := hf
  split at hk
  · next hp =>
    cases hk
    exact mem_names_of_has (Bool.and_eq_true_iff.1 hp).1
  · cases hk

theorem mem_names_of_mem_filtersOf {dflts : Entries String}
    (mem : e ∈ filtersOf m params dflts) : e.1 ∈ m.fields.names := by
  have hs : ∀ e ∈ givenFilters m params, e.1 ∈ m.fields.names :=
    fun e mem => mem_names_of_mem_givenFilters mem
  unfold filtersOf at mem
  generalize givenFilters m params = filters at mem hs
  induction dflts generalizing filters with
  | nil => exact hs e mem
  | cons d rest ih =>
    obtain ⟨fd, raw⟩ := d
    rw [foldl_cons] at mem
    refine ih _ mem ?_
    dsimp only
    split
    · exact hs
    · next hp =>
      simp only [Bool.or_eq_true, Bool.not_eq_true', not_or, Bool.not_eq_false] at hp
      intro e hk
      rcases mem_of_mem_put hk with rfl | hb
      · exact mem_names_of_has hp.1.2
      · exact hs e hb

theorem mem_names_of_mem_clauseFields (hm : clausesOf m query filters = .ok cs)
    (hd : ∀ e ∈ filters, e.1 ∈ m.fields.names) {fd : String}
    (mem : fd ∈ clauseFields cs) : fd ∈ m.fields.names := by
  obtain ⟨tests, rfl, he⟩ := clausesOf_eq_ok hm
  obtain ⟨c, ha, ht⟩ := mem_flatMap.1 mem
  rcases mem_append.1 ha with hs | hf
  · unfold searchClauses at hs
    split at hs
    · cases hs
    · cases mem_singleton.1 hs
      exact mem_names_of_mem_textFields ht
  · obtain ⟨filter, hg, hte⟩ := exists_of_mem_right he hf
    have ht : fd ∈ clauseFields [c] := mem_flatMap.2 ⟨c, mem_singleton_self c, ht⟩
    rw [(filterClause_eq_ok hte).2] at ht
    cases mem_singleton.1 ht
    exact hd filter hg

theorem field_orderOf (m : Model) (sort dir : String) : (orderOf m sort dir).field = idColumn ∨
      (orderOf m sort dir).field ∈ m.fields.names := by
  unfold orderOf
  split
  · next hk =>
    exact (Bool.or_eq_true_iff.1 hk).imp eq_of_beq mem_names_of_has
  · exact .inl rfl

theorem rowOrder_eq_ok {text : String} {o : Order} (hs : Action.rowOrder m text = .ok o) :
    (o.field = idColumn ∨ o.field ∈ m.fields.names) ∧ o.small = false := by
  unfold Action.rowOrder at hs
  split at hs
  · cases hs
    exact ⟨.inl rfl, rfl⟩
  · next fd rest _ =>
    dsimp only at hs
    split at hs
    · cases hs
    · split at hs
      · cases hs
      · split at hs
        · cases hs
        · next hk =>
          cases hs
          refine ⟨?_, rfl⟩
          rw [Bool.and_eq_true, not_and_or, bne_iff_ne, not_not, Bool.not_eq_true', Bool.not_eq_false] at hk
          exact hk.imp_right mem_names_of_has

/-! ## Statements -/

theorem identified_of_accepted {spec : Json.Members} {app : App}
    (ha : check spec = .ok app) (mem : m ∈ app.models) : Identified m := by
  have hp := modelPassed_of_accepted ha mem
  refine ⟨hp.name, fun f hn => ?_⟩
  obtain ⟨e, ham, rfl⟩ := mem_map.1 hn
  exact hp.fieldNames e ham

/-- Two requests for rows of a model that both search or both do not, that filter by the same fields
in the same order, and whose rows are ordered by the same column in the same direction. -/
structure Alike (m : Model) (a b : Ask) : Prop where
  searched : a.query = "" ↔ b.query = ""
  filtered : a.filters.names = b.filters.names
  column : (orderOf m a.sort a.direction).field = (orderOf m b.sort b.direction).field
  falling : (orderOf m a.sort a.direction).descending = (orderOf m b.sort b.direction).descending

theorem Alike.orderOf_eq {a b : Ask} (ha : Alike m a b) :
    orderOf m a.sort a.direction = orderOf m b.sort b.direction :=
  Order.mk.injEq .. ▸ ⟨ha.column, ha.falling, rfl⟩

/-- No value that a request gives is part of a statement's text. Requests that are alike have the
same texts, whatever they search for, filter by and in what window; the texts name nothing but what
a model has names for, with a place for every value that is bound; and an order is stated by a field
and a direction. -/
theorem statements_keep_values_out :
    (∀ (m : Spec.Model) (a b : Ask) (clauses others : List Clause), Alike m a b →
      clausesOf m a.query a.filters = .ok clauses → clausesOf m b.query b.filters = .ok others →
        (∀ limit offset limit' offset' : Int,
          (Store.listStatement m clauses (orderOf m a.sort a.direction) limit offset).text =
            (Store.listStatement m others (orderOf m b.sort b.direction) limit' offset').text) ∧
        (Store.countStatement m clauses).text = (Store.countStatement m others).text) ∧
    (∀ (spec : Json.Members) (app : Spec.App), Spec.check spec = .ok app → ∀ m ∈ app.models,
      ∀ (a : Ask) (params : Params) (defaults : Entries String) (clauses : List Clause),
        a.filters = filtersOf m params defaults → clausesOf m a.query a.filters = .ok clauses →
        (∀ limit offset : Int,
          let listing := Store.listStatement m clauses (orderOf m a.sort a.direction) limit offset
          Spelled (namesOf m) listing.parameters.length listing.text) ∧
        Spelled (namesOf m) (Store.countStatement m clauses).parameters.length
          (Store.countStatement m clauses).text) ∧
    (∀ (m : Spec.Model) (text : String) (o : Store.Order), Action.rowOrder m text = .ok o →
      (o.field = "id" ∨ o.field ∈ m.fields.names) ∧
        (o.statement = o.field ++ " ASC" ∨ o.statement = o.field ++ " DESC")) := by
  refine ⟨fun m a b clauses others alike made made' => ?_,
    fun spec app accepted m mem a params defaults clauses given made => ?_,
    fun m text o stated => ?_⟩
  · have same := Store.whereStatement_congr
      (statement_clausesOf made made' alike.searched alike.filtered)
    refine ⟨fun limit offset limit' offset' => ?_, ?_⟩
    · rw [Store.text_listStatement, Store.text_listStatement, same, alike.orderOf_eq]
    · rw [Store.text_countStatement, Store.text_countStatement, same]
  · have identified := identified_of_accepted accepted mem
    have declared : ∀ e ∈ a.filters, e.1 ∈ m.fields.names := by
      rw [given]
      exact fun e mem => mem_names_of_mem_filtersOf mem
    have fields : ∀ f ∈ Store.clauseFields clauses, Spelled (namesOf m) 0 f :=
      fun f tested => identified.spelled_field
        (.inr (mem_names_of_mem_clauseFields made declared tested))
    refine ⟨fun limit offset => ?_, Store.spelled_countStatement identified.spelled_name fields⟩
    exact Store.spelled_listStatement identified.spelled_name fields
      (identified.spelled_field (field_orderOf m a.sort a.direction)) limit offset
  · obtain ⟨field, large⟩ := rowOrder_eq_ok stated
    exact ⟨field, Store.Order.statement_of_not_small large⟩

def shelfSpec : Json.Members := [
  ("db", .obj [("path", .str ":memory:"), ("models", .arr [
    .obj [("name", .str "Book"), ("fields", .obj [
      ("title", .str "text"), ("copies", .str "int")])]])])]

def book : Model where
  name := "Book"
  fields := [("title", .text), ("copies", .int)]

def askForBooks (query direction copies : String) (limit offset : Int) : Ask where
  query := query
  sort := "title"
  direction := direction
  limit := limit
  offset := offset
  filters := filtersOf book [("f_copies", [copies])] []

/-- A search for what would end a text in a statement changes nothing in it. -/
theorem quote_stays_out : ∃ app clauses others,
    Spec.check shelfSpec = .ok app ∧ book ∈ app.models ∧
    clausesOf book "Lean" (askForBooks "Lean" "asc" "1" 10 0).filters = .ok clauses ∧
    clausesOf book "' OR ''='" (askForBooks "' OR ''='" "ASC" "23" 999 (-1)).filters = .ok others ∧
    (Store.listStatement book others (orderOf book "title" "ASC") 500 0).text =
      (Store.listStatement book clauses (orderOf book "title" "asc") 10 0).text ∧
    (Store.countStatement book clauses).text =
      "SELECT COUNT(*) as count FROM Book WHERE (title LIKE ?) AND copies = ?" ∧
    Spelled (namesOf book) 2 (Store.countStatement book clauses).text := by
  have models : (Spec.check shelfSpec).map Spec.App.models = .ok [book] := rfl
  obtain ⟨app, accepted, given⟩ := except_map_eq_ok models
  have mem : book ∈ app.models := by simp [given]
  have plain : clausesOf book "Lean" (askForBooks "Lean" "asc" "1" 10 0).filters =
      .ok [.anyLike ["title"] "%Lean%", .equals "copies" (.int 1)] := rfl
  have quoted : clausesOf book "' OR ''='" (askForBooks "' OR ''='" "ASC" "23" 999 (-1)).filters =
      .ok [.anyLike ["title"] "%' OR ''='%", .equals "copies" (.int 23)] := rfl
  have alike : Alike book (askForBooks "' OR ''='" "ASC" "23" 999 (-1))
      (askForBooks "Lean" "asc" "1" 10 0) :=
    ⟨by decide, rfl, rfl, by decide +kernel⟩
  obtain ⟨texts, spelled, -⟩ := statements_keep_values_out
  refine ⟨app, _, _, accepted, mem, plain, quoted, ?_, ?_, ?_⟩
  · exact (texts book _ _ _ _ alike quoted plain).1 500 0 10 0
  · decide +kernel
  · exact (spelled shelfSpec app accepted book mem (askForBooks "Lean" "asc" "1" 10 0) _ [] _ rfl
      plain).2

end Appwright.Server
