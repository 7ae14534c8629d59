import Appwright.Proofs.Decimal.Bits
import Appwright.Proofs.Server.Outcome
import Appwright.Proofs.Store.Migration
import Appwright.Proofs.Store.Writing

/-!
# Rows in pages

The administration shows the rows of a model page by page. How many rows a page has, where it begins
and how many pages there are is computed in three places from the limit that a request gives. Only
where this is between one and the greatest number of rows do they agree, so that the pages together
have every row once (`pages_partition_iff`): with a lower limit every page begins at the first row,
and with a greater one rows between two pages are left out. A few rows may come out right all the
same.
-/

namespace Appwright.Server

open List Spec Entries Store Url View Value Nat Decimal

/-! ## Windows of a list -/

section Windows

variable {α : Type} {xs : List α} {lim : Int} {cnt : ℕ}

/-- The items that the page after `k` others shows. -/
def onPage (limit : Int) (xs : List α) (k : ℕ) : List α :=
  window (max 1 (min limit maxRows)) (max 0 (k * limit)) xs

theorem onPage_eq (limit : Int) (xs : List α) (k : ℕ) : onPage limit xs k =
    (xs.drop (k * limit).toNat).take (max 1 (min limit maxRows)).toNat := by
  unfold onPage window
  rw [if_neg (by omega), show (max 0 (k * limit)).toNat = (k * limit).toNat by omega]

theorem flatMap_windows (xs : List α) (size count : ℕ) :
    (range count).flatMap (fun k => (xs.drop (k * size)).take size) = xs.take (count * size) := by
  induction count with
  | zero => simp
  | succ count ih =>
    rw [range_succ, flatMap_append, ih, flatMap_singleton, succ_mul, take_add]

/-- The number of pages for as many items as a list has. -/
structure IsPageCount (limit : Int) (length count : ℕ) : Prop where
  least : 1 ≤ count
  enough : (length : Int) ≤ count * max 1 limit
  needed : (count - 1 : Int) * max 1 limit < max 1 length

theorem flatMap_onPage_of_kept (low : 1 ≤ lim) (high : lim ≤ maxRows)
    (hp : IsPageCount lim xs.length cnt) : (range cnt).flatMap (onPage lim xs) = xs := by
  obtain ⟨size, rfl⟩ := Int.eq_ofNat_of_zero_le (by omega : 0 ≤ lim)
  have hw : onPage (size : Int) xs = fun k => (xs.drop (k * size)).take size := by
    funext k
    rw [onPage_eq, show (max 1 (min (size : Int) maxRows)).toNat = size by omega]
    rfl
  rw [hw, flatMap_windows, take_of_length_le]
  have := hp.enough
  rw [max_eq_right low] at this
  exact_mod_cast this

theorem perm_onPage_iff_of_low (low : lim < 1) (hp : IsPageCount lim xs.length cnt)
    (hd : xs.Nodup) : ((range cnt).flatMap (onPage lim xs)).Perm xs ↔ xs.length ≤ 1 := by
  have hw : onPage lim xs = fun _ => xs.take 1 := by
    funext k
    have hb : (k * lim).toNat = 0 :=
      Int.toNat_eq_zero.2 (Int.mul_nonpos_of_nonneg_of_nonpos (by omega) (by omega))
    rw [onPage_eq, hb, drop_zero, show (max 1 (min lim maxRows)).toNat = 1 by omega]
  rw [hw]
  cases xs with
  | nil => simp
  | cons x rest =>
    have hs : (range cnt).flatMap (fun _ => (x :: rest).take 1) = replicate cnt x := by
      have hc := map_eq_flatMap (f := fun _ => x) (l := range cnt)
      rw [map_const', length_range] at hc
      exact hc.symm
    have count_eq : cnt = (x :: rest).length := by
      have he := hp.enough
      have hn := hp.needed
      rw [max_eq_left (by omega), length_cons] at he hn
      rw [length_cons]
      omega
    rw [hs]
    constructor
    · intro hpe
      rw [← count_eq]
      exact nodup_replicate.1 (hpe.nodup_iff.2 hd)
    · intro one
      have none : rest = [] := eq_nil_of_length_eq_zero (by simpa using one)
      rw [count_eq, none]
      rfl

theorem perm_onPage_iff_of_high (high : maxRows < lim) (hp : IsPageCount lim xs.length cnt) :
    ((range cnt).flatMap (onPage lim xs)).Perm xs ↔ (xs.length : Int) ≤ maxRows := by
  obtain ⟨size, rfl⟩ := Int.eq_ofNat_of_zero_le (by unfold maxRows at high; omega : 0 ≤ lim)
  unfold maxRows at high ⊢
  have hw (k : ℕ) : onPage (size : Int) xs k = (xs.drop (k * size)).take 500 := by
    rw [onPage_eq, show (max 1 (min (size : Int) maxRows)).toNat = 500 by unfold maxRows; omega]
    rfl
  have he := hp.enough
  have hn := hp.needed
  rw [max_eq_right (by omega : (1 : Int) ≤ size)] at he hn
  constructor
  · intro hpe
    by_contra! hm
    -- The first page leaves items out that the count of pages takes as shown.
    have all := congrArg length (flatMap_windows xs size cnt)
    rw [take_of_length_le (by exact_mod_cast he), ← hpe.length_eq, length_flatMap, length_flatMap] at all
    refine absurd all (ne_of_gt (sum_lt_sum _ _ (fun k _ => ?_) ⟨0, ?_, ?_⟩))
    · rw [hw, length_take, length_take]
      omega
    · have := hp.least
      exact mem_range.2 (by omega)
    · rw [hw, length_take, length_take, zero_mul, drop_zero]
      omega
  · intro few
    have one : cnt = 1 := by
      have := hp.least
      by_contra ho
      have : (1 : Int) * size ≤ (cnt - 1 : Int) * size :=
        Int.mul_le_mul_of_nonneg_right (by omega) (by omega)
      omega
    rw [one, range_one, flatMap_singleton, hw, zero_mul, drop_zero, take_of_length_le (by omega)]

/-- Pages have every item once if and only if the limit is one that they keep, or the items are too few
for it to matter. -/
theorem perm_onPage_iff (hp : IsPageCount lim xs.length cnt) (hd : xs.Nodup) :
    ((range cnt).flatMap (onPage lim xs)).Perm xs ↔
      (1 ≤ lim ∨ xs.length ≤ 1) ∧ (lim ≤ maxRows ∨ (xs.length : Int) ≤ maxRows) := by
  rcases lt_or_ge lim 1 with low | low
  · rw [perm_onPage_iff_of_low low hp hd]
    unfold maxRows
    omega
  rcases lt_or_ge maxRows lim with high | high
  · rw [perm_onPage_iff_of_high high hp]
    omega
  · rw [flatMap_onPage_of_kept low high hp]
    simp [low, high]

end Windows

/-! ## The number of pages -/

variable {total : ℕ} {rows : List Json.Members} {l : Listing} {m : Model} {ask : Ask} {s s' : State}
  {t : Table} {cls : List Clause} {limit off : Int} {setup : Setup} {query : String}

theorem isPageCount_pages (hc : l.total = total) (few : total < 2 ^ 53) :
    IsPageCount l.limit total l.pages.toNat ∧ (l.pages.toNat : Int) = l.pages := by
  obtain ⟨size, hsize⟩ := Int.eq_ofNat_of_zero_le (by omega : 0 ≤ max 1 l.limit)
  have pos : 0 < size := by omega
  rcases Nat.eq_zero_or_pos total with none | some
  · have one : l.pages = 1 := by
      unfold Listing.pages
      rw [hc, none]
      rfl
    rw [one, none]
    exact ⟨⟨by decide, by simp, by simp⟩, rfl⟩
  · obtain ⟨-, -, hf, -⟩ := value_ofNatRatio some pos few
    have hp : l.pages = ⌈(total : ℚ) / size⌉ := by
      rw [← ceil_ofNatRatio some pos few, ← ceil_value hf]
      unfold Listing.pages
      rw [hc, hsize, if_neg (by omega)]
      rfl
    have hpo : (0 : ℚ) < size := by exact_mod_cast pos
    have low := Int.le_ceil ((total : ℚ) / size)
    have high := Int.ceil_lt_add_one ((total : ℚ) / size)
    have hl : 1 ≤ l.pages := hp ▸ Int.one_le_ceil_iff.2 (by positivity)
    rw [← hp, div_le_iff₀ hpo] at low
    rw [← hp, ← sub_lt_iff_lt_add, lt_div_iff₀ hpo] at high
    have hca : (l.pages.toNat : Int) = l.pages := Int.toNat_of_nonneg (by omega)
    refine ⟨⟨by omega, ?_, ?_⟩, hca⟩
    · rw [hca, hsize]
      exact_mod_cast low
    · rw [hca, hsize, max_eq_right (by omega : 1 ≤ total)]
      exact_mod_cast high

/-! ## The rows that match -/

def matching (t : Table) (clauses : List Clause) : List Row :=
  t.rows.filter fun r => (satisfies t r clauses).toOption == some true

theorem eq_matching_of_select {t : Table} {clauses : List Clause}
    {rows : List Row} (h : select t clauses = .ok rows) : rows = matching t clauses := by
  have hs (from_ kept : List Row) (rows : List Row)
      (h : from_.filterAuxM (fun r => satisfies t r clauses) kept = .ok rows) :
      rows = (from_.filter fun r => (satisfies t r clauses).toOption == some true).reverse ++ kept := by
    induction from_ generalizing kept with
    | nil =>
      cases h
      rfl
    | cons r from_ ih =>
      obtain ⟨b, here, h⟩ := of_bind_ok h
      have here : satisfies t r clauses = .ok b := here
      rw [ih _ h, filter_cons, here]
      cases b <;> simp [Except.toOption]
  obtain ⟨kept, hc, ⟨⟩⟩ := of_bind_ok h
  rw [hs _ _ _ hc, append_nil, reverse_reverse, matching]

/-- A request can be answered from the rows of a table that satisfy some clauses. -/
structure Matches (m : Model) (ask : Ask) (s : State) (t : Table)
    (clauses : List Clause) : Prop where
  table : s.store.table? m.name = some t
  tests : clausesOf m ask.query ask.filters = .ok clauses
  columns : checkColumns t
    (clauseFields clauses ++ [(orderOf m ask.sort ask.direction).field]) = .ok ()
  bound : ∃ ws, bindAll 1 (clauses.flatMap Clause.parameters) = .ok ws
  selected : select t clauses = .ok (matching t clauses)

theorem Matches.of_window (hf : Matches m ask s t cls) (limit offset : Int) :
    Matches m { ask with limit, offset } s t cls :=
  ⟨hf.table, hf.tests, hf.columns, hf.bound, hf.selected⟩

def ordered (m : Model) (ask : Ask) (t : Table) (clauses : List Clause) :
    List Json.Members :=
  (sortRows t (orderOf m ask.sort ask.direction) (matching t clauses)).map t.object

theorem exists_bindAll_window_iff {vs : List Json} (fits : fits limit) :
    (∃ ws, bindAll 1 (vs ++ [.int limit, .int off]) = .ok ws) ↔
      (∃ ws, bindAll 1 vs = .ok ws) ∧ Value.fits off := by
  simp only [bindAll_eq_ok_iff]
  constructor
  · rintro ⟨ws, each⟩
    obtain ⟨w, -, hb⟩ := exists_of_mem_left each
      (mem_append_right vs (mem_cons_of_mem _ (mem_singleton_self (Json.int off))))
    refine ⟨⟨_, forall₂_take_append _ _ _ each.flip |>.flip⟩, ?_⟩
    by_contra hu
    rw [bind_int, if_neg hu] at hb
    cases hb
  · rintro ⟨⟨ws, each⟩, fits'⟩
    refine ⟨ws ++ [.int limit, .int off], rel_append each (.cons ?_ (.cons ?_ .nil))⟩
    · rw [bind_int, if_pos fits]
    · rw [bind_int, if_pos fits']

theorem list_eq_ok_iff {store store' : Store} {ord : Order}
    (fits : fits limit) : list m cls ord limit off store = .ok rows store' ↔
      store' = store ∧ Value.fits off ∧ ∃ t, store.table? m.name = some t ∧
        checkColumns t (clauseFields cls ++ [ord.field]) = .ok () ∧
        (∃ ws, bindAll 1 (cls.flatMap Clause.parameters) = .ok ws) ∧
        select t cls = .ok (matching t cls) ∧
        rows = (window limit off (sortRows t ord (matching t cls))).map t.object := by
  unfold list
  constructor
  · intro h
    obtain ⟨t, _, ht, h⟩ := bind_eq_ok h
    cases (still_tableOf m).eq_of_ok ht
    obtain ⟨_, hco, h⟩ := attempt_bind_eq_ok_iff.1 h
    obtain ⟨ws, hbo, h⟩ := attempt_bind_eq_ok_iff.1 h
    obtain ⟨selected, hc, h⟩ := attempt_bind_eq_ok_iff.1 h
    cases h
    obtain ⟨hb, fits'⟩ := (exists_bindAll_window_iff fits).1 ⟨ws, hbo⟩
    have all := eq_matching_of_select hc
    subst all
    exact ⟨rfl, fits', t, table?_of_tableOf ht, hco, hb, hc, rfl⟩
  · rintro ⟨rfl, fits', t, ht, hco, hb, hc, rfl⟩
    obtain ⟨ws, hbo⟩ := (exists_bindAll_window_iff fits).2 ⟨hb, fits'⟩
    rw [bind_of_ok (tableOf_eq_ok ht), attempt_bind_eq_ok_iff]
    refine ⟨(), hco, attempt_bind_eq_ok_iff.2 ⟨ws, hbo, ?_⟩⟩
    exact attempt_bind_eq_ok_iff.2 ⟨_, hc, rfl⟩

theorem onStore_eq_ok_iff {α : Type} {op : Action α} {v : α} :
    onStore op s = .ok v s' ↔ ∃ store, op s.store = .ok v store ∧ s' = { s with store } := by
  unfold onStore EStateM.run
  cases op s.store with
  | ok w store => simp [and_comm, eq_comm]
  | error e store => simp

theorem map_window {α β : Type} (f : α → β) (limit off : Int) (xs : List α) :
    (window limit off xs).map f = window limit off (xs.map f) := by
  unfold window
  split <;> simp

theorem queryRows_eq_ok_iff : queryRows m ask s = .ok rows s' ↔
    s' = s ∧ fits (max 0 ask.offset) ∧ ∃ t clauses, Matches m ask s t clauses ∧
      rows = window (max 1 (min ask.limit maxRows)) (max 0 ask.offset) (ordered m ask t clauses) := by
  have fits : fits (max 1 (min ask.limit maxRows)) := by
    unfold fits maxRows
    simp only [Bool.and_eq_true, decide_eq_true_eq]
    omega
  unfold queryRows ordered
  simp only [attempt_bind_eq_ok_iff, onStore_eq_ok_iff, list_eq_ok_iff fits, map_window]
  constructor
  · rintro ⟨clauses, made, _, ⟨rfl, fits', t, ht, hc, hb, hs, rfl⟩, rfl⟩
    exact ⟨rfl, fits', t, clauses, ⟨ht, made, hc, hb, hs⟩, rfl⟩
  · rintro ⟨rfl, fits', t, clauses, hf, rfl⟩
    exact ⟨clauses, hf.tests, _, ⟨rfl, fits', t, hf.table, hf.columns, hf.bound, hf.selected, rfl⟩, rfl⟩

theorem countRows_eq_ok (hf : Matches m ask s t cls) :
    countRows m ask s = .ok (matching t cls).length s := by
  obtain ⟨ws, hb⟩ := hf.bound
  refine attempt_bind_eq_ok_iff.2 ⟨cls, hf.tests, onStore_eq_ok_iff.2 ⟨s.store, ?_, rfl⟩⟩
  unfold Store.count
  rw [bind_of_ok (tableOf_eq_ok hf.table)]
  refine attempt_bind_eq_ok_iff.2 ⟨(), Store.checkColumns_of_append hf.columns, ?_⟩
  refine attempt_bind_eq_ok_iff.2 ⟨ws, hb, ?_⟩
  exact attempt_bind_eq_ok_iff.2 ⟨_, hf.selected, rfl⟩

/-! ## Queries that differ in the page -/

def AsksPage (params : Params) (page : Int) (query : String) : Prop :=
  ∃ v, readForm query = params.put "page" [v] ∧ Decimal.readInt v = .ok page

theorem filterMap_put {α β : Type} {f : String × α → Option β} {name : String}
    (hs : ∀ v, f (name, v) = none) (v : α) (es : Entries α) :
    (es.put name v).filterMap f = es.filterMap f := by
  induction es with
  | nil => rw [put, filterMap_cons_none (hs v)]
  | cons e es ih =>
    obtain ⟨k, w⟩ := e
    unfold put
    split
    next hsa =>
      cases (beq_iff_eq.1 hsa)
      rw [filterMap_cons_none (hs v), filterMap_cons_none (hs w)]
    next => rw [filterMap_cons, filterMap_cons, ih]

theorem filtersOf_put_page (ps : Params) (vs : List String) (dflts : Entries String) :
    filtersOf m (ps.put "page" vs) dflts = filtersOf m ps dflts := by
  have hg : givenFilters m (ps.put "page" vs) = givenFilters m ps := by
    unfold givenFilters
    exact congrArg _ (filterMap_put (fun _ => rfl) vs ps)
  have hn (fd : String) : has (filterHead ++ fd) (ps.put "page" vs) = has (filterHead ++ fd) ps := by
    unfold has
    rw [get?_put_of_ne]
    intro hs
    have := congrArg String.toList hs
    simp [filterHead] at this
  unfold filtersOf
  simp only [hg, hn]

theorem adminAsk_of_asksPage {ps : Params} {page : Int} {query : String} {p : Option Page}
    (ha : AsksPage ps page query) : adminAsk m p (readForm query) = ({ (adminAsk m p ps).1 with
        offset := max 0 ((max 1 page - 1) * (adminAsk m p ps).1.limit) }, page) := by
  obtain ⟨v, hr, hn⟩ := ha
  have ho {name : String} (ne : name ≠ "page") :
      firstValue? name (ps.put "page" [v]) = firstValue? name ps := by
    unfold firstValue?
    rw [get?_put_of_ne ne]
  have here : wholeParam (ps.put "page" [v]) "page" 1 = page := by
    unfold wholeParam firstValue?
    rw [get?_put_self]
    dsimp only [Option.bind, head?]
    rw [hn]
    rfl
  have hl : wholeParam (ps.put "page" [v]) "limit" 200 = wholeParam ps "limit" 200 := by
    unfold wholeParam
    rw [ho (by decide)]
  have ht {name : String} (ne : name ≠ "page") : param (ps.put "page" [v]) name "" = param ps name "" := by
    unfold param
    rw [ho ne]
  unfold adminAsk
  rw [hr, here, hl, ht (by decide), ht (by decide), ht (by decide), filtersOf_put_page]

/-! ## Pages that are shown -/

def listingOf (setup : Setup) (m : Model) (query : String) (total : ℕ) : Listing :=
  let page := pageOf? setup m.name
  let asked := adminAsk m page (readForm query)
  { query := asked.1.query
    sort := asked.1.sort
    direction := asked.1.direction
    filters := asked.1.filters
    page := asked.2
    limit := asked.1.limit
    total
    visible := page.bind Page.visible
    hidden := page.bind Page.hidden }

structure ShowsPage (setup : Setup) (m : Model) (s : State) (query : String)
    (rows : List Json.Members) (l : Listing) : Prop where
  listed : queryRows m (adminAsk m (pageOf? setup m.name) (readForm query)).1 s = .ok rows s
  counted : ∃ total, l = listingOf setup m query total ∧
    countRows m (adminAsk m (pageOf? setup m.name) (readForm query)).1 s = .ok total s
  sent : ∃ choices s', choicesOf setup m.fields s = .ok choices s ∧
    showRows setup m query s = .ok () s' ∧
    sendPage setup (adminModel setup.app m (rows.map (normalize m)) l setup.token choices)
      s = .ok () s'

theorem showsPage_of_ok {cs : Choices}
    (hl : queryRows m (adminAsk m (pageOf? setup m.name) (readForm query)).1 s = .ok rows s)
    (hc : countRows m (adminAsk m (pageOf? setup m.name) (readForm query)).1 s = .ok total s)
    (hch : choicesOf setup m.fields s = .ok cs s) (hf : Fits setup.policy) :
    ShowsPage setup m s query rows (listingOf setup m query total) := by
  obtain ⟨_, s', hs⟩ := exists_ok_of_not_fails (fails_sendPage_iff.not.2 (not_not.2 hf))
  refine ⟨hl, ⟨total, rfl, hc⟩, cs, s', hch, ?_, hs⟩
  unfold showRows
  dsimp only
  rw [bind_of_ok hl, bind_of_ok hc, bind_of_ok hch]
  exact hs

theorem ShowsPage.of_other {b : String} {rows shown : List Json.Members}
    (first : ShowsPage setup m s query shown l)
    (hl : queryRows m (adminAsk m (pageOf? setup m.name) (readForm b)).1 s = .ok rows s)
    (hc : countRows m (adminAsk m (pageOf? setup m.name) (readForm b)).1 s = .ok total s) :
    ShowsPage setup m s b rows (listingOf setup m b total) := by
  obtain ⟨cs, s', hch, -, hs⟩ := first.sent
  refine showsPage_of_ok hl hc hch ?_
  by_contra hu
  obtain ⟨_, _, hf⟩ := fails_sendPage_iff.2 hu
  cases hs.symm.trans hf

theorem perm_ordered (m : Model) (ask : Ask) (t : Table) (clauses : List Clause) :
    (ordered m ask t clauses).Perm ((matching t clauses).map t.object) :=
  (mergeSort_perm _ _).map _

theorem nodup_ordered (ids : (t.rows.map Row.id).Nodup) (ask : Ask) : (ordered m ask t cls).Nodup := by
  refine (perm_ordered m ask t cls).nodup_iff.2 (Nodup.of_map head? ?_)
  have heads : ((matching t cls).map t.object).map head? =
      ((matching t cls).map Row.id).map fun id => some (idColumn, .int id) := by
    simp [Table.object]
  rw [heads]
  refine Nodup.map (fun a b hs => by simpa using hs) ?_
  exact ids.sublist (filter_sublist.map _)

theorem pages_congr {l' : Listing} (hl : l'.limit = l.limit) (total : l'.total = l.total) :
    l'.pages = l.pages := by
  unfold Listing.pages
  rw [hl, total]

theorem one_le_pages (l : Listing) : 1 ≤ l.pages := by
  unfold Listing.pages
  split
  · exact le_rfl
  · exact le_max_left _ _

theorem fits_of_lt {len count : ℕ} (hp : IsPageCount limit len count)
    (few : len < 2 ^ 53) {k : ℕ} (hk : k < count) : fits (max 0 (max 0 (k * limit))) := by
  have hb : (k : Int) * limit ≤ (count - 1 : Int) * max 1 limit :=
    (Int.mul_le_mul_of_nonneg_left (le_max_right 1 limit) (by omega)).trans
      (Int.mul_le_mul_of_nonneg_right (by omega) (by omega))
  have hn := hp.needed
  generalize (k : Int) * limit = off at hb
  generalize (count - 1 : Int) * max 1 limit = last at hb hn
  unfold fits
  simp only [Bool.and_eq_true, decide_eq_true_eq]
  omega

/-- The pages of the administration, from the first to the last, are all shown, with the same number
of pages. Together they have every row that matches once if and only if the limit is between one and
the greatest number of rows, or there are too few rows for it to matter. -/
theorem pages_partition_iff {params : Params} {queries : ℕ → String} {shown : List Json.Members}
    {l : View.Listing} (sound : Store.Sound s.store) (few : l.total < 2 ^ 53)
    (first : ShowsPage setup m s (queries 0) shown l)
    (asks : ∀ k : ℕ, k < l.pages → AsksPage params (k + 1) (queries k)) :
    ∃ t clauses, s.store.table? m.name = some t ∧ clausesOf m l.query l.filters = .ok clauses ∧
      ∃ rows : ℕ → List Json.Members,
        (∀ k : ℕ, k < l.pages → ∃ l', ShowsPage setup m s (queries k) (rows k) l' ∧
          l'.page = k + 1 ∧ l'.pages = l.pages) ∧
        (((List.range l.pages.toNat).flatMap rows).Perm ((matching t clauses).map t.object) ↔
          (1 ≤ l.limit ∨ (matching t clauses).length ≤ 1) ∧
          (l.limit ≤ maxRows ∨ ((matching t clauses).length : Int) ≤ maxRows)) := by
  -- What all pages ask for, but for the place where they begin.
  obtain ⟨ask, asked⟩ : ∃ ask : Ask, ∀ k : ℕ, k < l.pages →
      adminAsk m (pageOf? setup m.name) (Url.readForm (queries k)) =
        ({ ask with offset := max 0 (k * ask.limit) }, (k : Int) + 1) := by
    refine ⟨(adminAsk m (pageOf? setup m.name) params).1, fun k hk => ?_⟩
    rw [adminAsk_of_asksPage (asks k hk), show max 1 ((k : Int) + 1) - 1 = k by omega]
  have start := asked 0 (Int.lt_of_lt_of_le Int.zero_lt_one (one_le_pages l))
  have listed := first.listed
  obtain ⟨total, hl, counted⟩ := first.counted
  rw [start] at listed counted
  obtain ⟨-, -, t, clauses, found, -⟩ := queryRows_eq_ok_iff.mp listed
  cases counted.symm.trans (countRows_eq_ok found)
  have query : l.query = ask.query := by rw [hl, listingOf, start]
  have filters : l.filters = ask.filters := by rw [hl, listingOf, start]
  have limit : l.limit = ask.limit := by rw [hl, listingOf, start]
  have number : l.total = (matching t clauses).length := by rw [hl, listingOf]
  have small : (matching t clauses).length < 2 ^ 53 := by
    rw [number] at few
    exact_mod_cast few
  obtain ⟨pages, cast⟩ := isPageCount_pages number small
  refine ⟨t, clauses, found.table, by rw [query, filters]; exact found.tests,
    onPage ask.limit (ordered m ask t clauses), fun k hk => ?_, ?_⟩
  · have inside : k < l.pages.toNat := by
      rw [← Int.ofNat_lt, cast]
      exact hk
    have fits := fits_of_lt pages small inside
    rw [limit] at fits
    have here : Matches m { ask with offset := max 0 (k * ask.limit) } s t clauses :=
      found.of_window ask.limit _
    have listed' : queryRows m (adminAsk m (pageOf? setup m.name) (Url.readForm (queries k))).1 s =
        .ok (onPage ask.limit (ordered m ask t clauses) k) s := by
      rw [asked k hk]
      refine queryRows_eq_ok_iff.mpr ⟨rfl, fits, t, clauses, here, ?_⟩
      rw [onPage, max_eq_right (le_max_left 0 _)]
      rfl
    have counted' : countRows m (adminAsk m (pageOf? setup m.name) (Url.readForm (queries k))).1 s =
        .ok (matching t clauses).length s := by
      rw [asked k hk]
      exact countRows_eq_ok here
    refine ⟨_, first.of_other listed' counted', ?_, ?_⟩
    · rw [listingOf, asked k hk]
    · refine pages_congr ?_ number.symm
      rw [limit, listingOf, asked k hk]
  · have length : (ordered m ask t clauses).length = (matching t clauses).length :=
      (perm_ordered m ask t clauses).length_eq.trans (List.length_map _)
    rw [limit, ← length] at pages
    rw [(perm_ordered m ask t clauses).symm.congr_right, limit, ← length]
    refine perm_onPage_iff pages (nodup_ordered ?_ ask)
    exact sound.ids t (List.mem_of_find?_eq_some found.table)

/-! ## Three notes -/

def noteServer : Setup where
  app := { name := "notes" }
  environment := []
  models := [("Note", noteWith "stars")]
  actions := []
  policy := ""
  token := ""
  maxBody := 0
  apiKey := none
  audits := false

def noteTable : Table where
  name := "Note"
  columns := [⟨"text", .text⟩, ⟨"stars", .integer⟩]
  rows := [⟨1, [.text "one", .null]⟩, ⟨2, [.text "two", .null]⟩, ⟨3, [.text "three", .null]⟩]
  lastId := 3

def threeNotes : State where
  store := { tables := [noteTable] }
  limiter := { limit := 1 }

theorem sound_threeNotes : threeNotes.store.Sound where
  apart := pairwise_singleton _ _
  ids := forall_mem_singleton.2 (by decide)
  cells := forall_mem_singleton.2 (by decide)

theorem ordered_notes (hs : ask.sort = "id") (hd : ask.direction = "asc") :
    ordered (noteWith "stars") ask noteTable [] = noteTable.rows.map noteTable.object := by
  unfold ordered sortRows
  rw [hs, hd, mergeSort_of_pairwise]
  · rfl
  · decide +kernel

def noteAsk (query : String) : Ask :=
  (adminAsk (noteWith "stars") (pageOf? noteServer "Note") (readForm query)).1

structure AsksNotes (ask : Ask) : Prop where
  query : ask.query = ""
  filters : ask.filters = []
  sort : ask.sort = "id"
  direction : ask.direction = "asc"
  fits : fits (max 0 ask.offset) = true

def notesFor (ask : Ask) : List Json.Members :=
  window (max 1 (min ask.limit maxRows)) (max 0 ask.offset)
    (noteTable.rows.map noteTable.object)

theorem AsksNotes.matches (ha : AsksNotes ask) :
    Matches (noteWith "stars") ask threeNotes noteTable [] := by
  refine ⟨rfl, ?_, ?_, ⟨[], rfl⟩, rfl⟩
  · rw [ha.query, ha.filters]
    rfl
  · rw [ha.sort, ha.direction]
    rfl

theorem AsksNotes.queryRows_eq (asks : AsksNotes ask) :
    queryRows (noteWith "stars") ask threeNotes = .ok (notesFor ask) threeNotes := by
  refine queryRows_eq_ok_iff.2 ⟨rfl, asks.fits, noteTable, [], asks.matches, ?_⟩
  rw [ordered_notes asks.sort asks.direction, notesFor]

theorem showsPage_notes (ha : AsksNotes (noteAsk query)) :
    ShowsPage noteServer (noteWith "stars") threeNotes query (notesFor (noteAsk query))
      (listingOf noteServer (noteWith "stars") query 3) := by
  refine showsPage_of_ok ha.queryRows_eq (countRows_eq_ok ha.matches) rfl ?_
  intro c hc
  cases hc

def twoNotes (k : ℕ) : String :=
  if k = 0 then "page=1&dir=asc&limit=2" else "page=2&dir=asc&limit=2"

/-- Two at a time, the three notes are on two pages. -/
theorem three_notes_on_two_pages : ∃ rows : ℕ → List Json.Members,
    (∀ k : ℕ, k < (2 : Int) → ∃ l, ShowsPage noteServer (Store.noteWith "stars") threeNotes
      (twoNotes k) (rows k) l ∧ l.page = k + 1 ∧ l.pages = 2) ∧
    ((List.range 2).flatMap rows).Perm (noteTable.rows.map noteTable.object) := by
  have asked : AsksNotes (noteAsk (twoNotes 0)) := by constructor <;> decide +kernel
  have first := showsPage_notes asked
  have pages : (listingOf noteServer (Store.noteWith "stars") (twoNotes 0) 3).pages = 2 := by
    decide +kernel
  have limit : (listingOf noteServer (Store.noteWith "stars") (twoNotes 0) 3).limit = 2 := by
    decide +kernel
  have asks (k : ℕ) (hk : k < (listingOf noteServer (Store.noteWith "stars") (twoNotes 0) 3).pages) :
      AsksPage (Url.readForm (twoNotes 0)) (k + 1) (twoNotes k) := by
    rw [pages] at hk
    obtain rfl | rfl : k = 0 ∨ k = 1 := by omega
    · exact ⟨"1", by decide +kernel, rfl⟩
    · exact ⟨"2", by decide +kernel, rfl⟩
  obtain ⟨t, clauses, found, made, rows, shown, once⟩ :=
    pages_partition_iff sound_threeNotes (by decide) first asks
  cases found
  cases made
  rw [pages] at shown once
  exact ⟨rows, shown, once.mpr (by rw [limit]; decide)⟩

/-- With a limit of nothing, the second page of three shows the note that the first shows. -/
theorem limit_zero_repeats : ∃ l l',
    ShowsPage noteServer (Store.noteWith "stars") threeNotes "dir=asc&limit=0&page=1"
      ((noteTable.rows.take 1).map noteTable.object) l ∧
    ShowsPage noteServer (Store.noteWith "stars") threeNotes "dir=asc&limit=0&page=2"
      ((noteTable.rows.take 1).map noteTable.object) l' ∧
    l.pages = 3 ∧ l'.pages = 3 := by
  have shown {query : String} (asks : AsksNotes (noteAsk query))
      (window : (noteAsk query).limit = 0 ∧ (noteAsk query).offset = 0) :
      ShowsPage noteServer (Store.noteWith "stars") threeNotes query
        ((noteTable.rows.take 1).map noteTable.object)
        (listingOf noteServer (Store.noteWith "stars") query 3) := by
    have shown := showsPage_notes asks
    rw [notesFor, window.1, window.2] at shown
    exact shown
  refine ⟨_, _, shown ?_ (by decide +kernel), shown ?_ (by decide +kernel), by decide +kernel,
    by decide +kernel⟩
  all_goals constructor <;> decide +kernel

end Appwright.Server
