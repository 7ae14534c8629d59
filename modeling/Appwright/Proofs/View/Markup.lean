import Appwright.View.Admin
import Mathlib.Data.List.Basic

/-!
# Data does not change markup

Tags begin and end with brackets. Two pages have the same markup if the same brackets stand in them
in the same order. What comes from data is written without brackets, so the markup of a page is
settled by the application, the number of its rows and the number of choices for each reference: it
is the same whatever the rows, the choices and the search hold.

`Alike` relates two trees with the same brackets. It is a congruence for everything that pages are
built with, so each part of a page needs one lemma, which says what may differ in it.
-/

namespace Appwright

open List Spec Except

namespace Html

def isBracket (c : Char) : Bool :=
  c == '<' || c == '>'

def brackets (cs : List Char) : List Char :=
  cs.filter isBracket

def markup (s : String) : List Char :=
  brackets s.toList

theorem brackets_append (cs ds : List Char) : brackets (cs ++ ds) = brackets cs ++ brackets ds :=
  filter_append cs ds

theorem brackets_eq_nil {cs : List Char} (h : ∀ c ∈ cs, isBracket c = false) : brackets cs = [] :=
  filter_eq_nil_iff.2 fun c hc => by simp [h c hc]

variable {α : Type} {attrs as bs : List Attr} (name : String) {xs : List α} {a b : Attr}
  {g h : Html} {gs hs : List Html}

theorem brackets_flatMap {f : α → List Char} (h : ∀ x ∈ xs, brackets (f x) = []) :
    brackets (xs.flatMap f) = [] := by
  induction xs with
  | nil => rfl
  | cons x xs ih =>
    rw [flatMap_cons, brackets_append, h x mem_cons_self, ih fun y hy => h y (mem_cons_of_mem x hy)]
    rfl

theorem markup_append (s t : String) : markup (s ++ t) = markup s ++ markup t := by
  rw [markup, String.toList_append, brackets_append]
  rfl

theorem markup_intercalate {separator : String} (hp : markup separator = []) {ts : List String}
    (h : ∀ s ∈ ts, markup s = []) : markup (String.intercalate separator ts) = [] := by
  rw [markup, String.toList_intercalate, intercalate]
  induction ts with
  | nil => rfl
  | cons s ts ih =>
    have hr := ih fun t ht => h t (mem_cons_of_mem s ht)
    have first : brackets s.toList = [] := h s mem_cons_self
    cases ts with
    | nil => simpa using first
    | cons t ts =>
      have hb : brackets separator.toList = [] := hp
      simpa [brackets_append, first, hb] using hr

/-! ## Data -/

theorem brackets_escapeChar (c : Char) : brackets (escapeChar c) = [] := by
  unfold escapeChar
  split
  iterate 5 decide
  next hl hg _ _ => simp_all [brackets, isBracket]

theorem brackets_escapeChars (cs : List Char) : brackets (escapeChars cs) = [] :=
  brackets_flatMap fun c _ => brackets_escapeChar c

/-! ## Trees with the same brackets -/

structure AttrAlike (a b : Attr) : Prop where
  same : brackets (attrChars a) = brackets (attrChars b)

structure AttrsAlike (as bs : List Attr) : Prop where
  same : brackets (as.flatMap attrChars) = brackets (bs.flatMap attrChars)

structure Alike (g h : Html) : Prop where
  same : brackets (chars g) = brackets (chars h)

structure AllAlike (gs hs : List Html) : Prop where
  same : brackets (allChars gs) = brackets (allChars hs)

theorem AttrAlike.refl (a : Attr) : AttrAlike a a := ⟨rfl⟩

theorem AttrsAlike.refl (as : List Attr) : AttrsAlike as as := ⟨rfl⟩

theorem Alike.refl (h : Html) : Alike h h := ⟨rfl⟩

theorem AllAlike.refl (hs : List Html) : AllAlike hs hs := ⟨rfl⟩

theorem AttrsAlike.cons (first : AttrAlike a b)
    (hr : AttrsAlike as bs) : AttrsAlike (a :: as) (b :: bs) := by
  constructor
  rw [flatMap_cons, flatMap_cons, brackets_append, brackets_append, first.same, hr.same]

theorem AttrsAlike.keep (hr : AttrsAlike as bs) :
    AttrsAlike (a :: as) (a :: bs) :=
  .cons (.refl a) hr

theorem AttrsAlike.one (hs : AttrAlike a b) : AttrsAlike [a] [b] := .cons hs (.refl [])

theorem AllAlike.cons (first : Alike g h)
    (hr : AllAlike gs hs) : AllAlike (g :: gs) (h :: hs) := by
  constructor
  rw [allChars, allChars, brackets_append, brackets_append, first.same, hr.same]

theorem AllAlike.keep (hr : AllAlike gs hs) : AllAlike (h :: gs) (h :: hs) :=
  .cons (.refl h) hr

theorem AllAlike.one (hs : Alike g h) : AllAlike [g] [h] := .cons hs (.refl [])

theorem allChars_append (gs hs : List Html) : allChars (gs ++ hs) = allChars gs ++ allChars hs := by
  induction gs with
  | nil => rfl
  | cons g gs ih => rw [cons_append, allChars, allChars, ih, append_assoc]

theorem AllAlike.append {gs' hs' : List Html} (hf : AllAlike gs hs)
    (hb : AllAlike gs' hs') : AllAlike (gs ++ gs') (hs ++ hs') := by
  constructor
  rw [allChars_append, allChars_append, brackets_append, brackets_append, hf.same, hb.same]

theorem allAlike_map {β : Type} {f : α → Html} {g : β → Html} {ys : List β}
    (hs : xs.length = ys.length) (h : ∀ x y, Alike (f x) (g y)) : AllAlike (xs.map f) (ys.map g) := by
  induction xs generalizing ys with
  | nil =>
    rw [length_eq_zero_iff.1 hs.symm]
    exact .refl []
  | cons x xs ih =>
    cases ys with
    | nil => cases hs
    | cons y ys => exact .cons (h x y) (ih (Nat.succ.inj hs))

theorem allAlike_map_of_forall {f g : α → Html} (h : ∀ x, Alike (f x) (g x)) (xs : List α) :
    AllAlike (xs.map f) (xs.map g) := by
  induction xs with
  | nil => exact .refl []
  | cons x xs ih => exact .cons (h x) ih

theorem alike_text (s s' : String) : Alike (.text s) (.text s') := by
  constructor
  rw [chars, chars, brackets_escapeChars, brackets_escapeChars]

variable (tag : String) {attrs' : List Attr} {kids kids' : List Html}

theorem alike_element
    (ha : AttrsAlike attrs attrs') (hi : AllAlike kids kids') :
    Alike (.element tag attrs kids) (.element tag attrs' kids') := by
  have hc : brackets ('>' :: allChars kids) = brackets ('>' :: allChars kids') :=
    congrArg ('>' :: ·) hi.same
  constructor
  simp only [chars, brackets_append]
  rw [ha.same, hc]

theorem alike_within (hi : AllAlike kids kids') :
    Alike (.element tag attrs kids) (.element tag attrs kids') :=
  alike_element tag (.refl attrs) hi

theorem alike_void (ha : AttrsAlike attrs attrs') :
    Alike (.void tag attrs) (.void tag attrs') := by
  constructor
  simp only [chars, brackets_append]
  rw [ha.same]

theorem brackets_named (v : String) : brackets (attrChars (.named name v)) = markup name := by
  have hv : brackets ('=' :: '"' :: escapeChars v.toList) = [] := brackets_escapeChars v.toList
  have hs : brackets (' ' :: name.toList) = markup name := rfl
  have hq : brackets ['"'] = [] := rfl
  simp only [attrChars, brackets_append, hs, hv, hq, append_nil]

theorem brackets_fixed (v : String) : brackets (attrChars (.fixed name v)) = markup name ++ markup v := by
  have hv : brackets ('=' :: '"' :: v.toList) = markup v := rfl
  have hs : brackets (' ' :: name.toList) = markup name := rfl
  have hq : brackets ['"'] = [] := rfl
  simp only [attrChars, brackets_append, hs, hv, hq, append_nil]

theorem attrAlike_named (v v' : String) : AttrAlike (.named name v) (.named name v') :=
  ⟨(brackets_named name v).trans (brackets_named name v').symm⟩

theorem attrAlike_fixed {v v' : String} (hs : markup v = markup v') :
    AttrAlike (.fixed name v) (.fixed name v') := by
  constructor
  rw [brackets_fixed, brackets_fixed, hs]

theorem markup_render (h : AllAlike gs hs) :
    markup (render gs) = markup (render hs) := by
  unfold markup render
  rw [String.toList_ofList, String.toList_ofList]
  exact h.same

end Html

namespace Url

open Html

/-! ## Addresses -/

theorem isBracket_hexDigit {n : Nat} (h : n < 16) : isBracket (hexDigit n) = false := by
  have all : ∀ m < 16, isBracket (hexDigit m) = false := by decide
  exact all n h

theorem brackets_quoteByte (b : UInt8) : brackets (quoteByte b) = [] := by
  apply brackets_eq_nil
  unfold quoteByte
  split
  · next hp =>
    intro c hc
    rw [mem_singleton.1 hc, ← Bool.not_eq_true]
    intro hb
    unfold isPlainByte at hp
    simp only [isBracket, Bool.or_eq_true, beq_iff_eq] at hb
    rcases hb with hl | hg
    · rw [hl] at hp
      exact absurd hp (by decide)
    · rw [hg] at hp
      exact absurd hp (by decide)
  · split
    · intro c hc
      rw [mem_singleton.1 hc]
      rfl
    · have hbo := b.toNat_lt
      simp [isBracket_hexDigit (show b.toNat / 16 < 16 by omega),
        isBracket_hexDigit (show b.toNat % 16 < 16 by omega)]
      rfl

theorem markup_quote (s : String) : markup (quote s) = [] := by
  rw [markup, quote, String.toList_ofList]
  exact brackets_flatMap fun b _ => brackets_quoteByte b

theorem markup_encodeForm (fs : Entries String) : markup (encodeForm fs) = [] := by
  refine markup_intercalate (by decide) ?_
  intro s hs
  obtain ⟨f, -, rfl⟩ := mem_map.1 hs
  rw [markup_append, markup_append, markup_quote, markup_quote]
  decide

end Url

namespace View

open Html

/-! ## Controls -/

theorem attrAlike_selectedIf (b b' : Bool) : AttrAlike (selectedIf b) (selectedIf b') := by
  cases b <;> cases b' <;> exact ⟨rfl⟩

theorem alike_option (v v' : String) (selected selected' : Bool) (lb lb' : String) :
    Alike (option v selected lb) (option v' selected' lb') := by
  refine alike_element "option" ?_ ?_
  · exact .cons (attrAlike_named "value" v v') (.one (attrAlike_selectedIf _ _))
  · exact .one (alike_text lb lb')

variable {choices choices' : Choices} (app : App) (t : Theme) (m : Model) (name : String)
  (type : FieldType) {cont cont' : List Html} {rows rows' : List Json.Members}

theorem alike_labelled {control control' : Html} (hs : Alike control control') :
    Alike (labelled t name control) (labelled t name control') :=
  alike_within "label" (.keep (.one hs))

theorem alike_select {opts opts' : List Html} (hs : AllAlike opts opts') :
    Alike (select t name opts) (select t name opts') :=
  alike_within "select" hs

theorem allAlike_choiceOptions (chosen chosen' : String) {choices choices' : List Choice}
    (hs : choices.length = choices'.length) :
    AllAlike (choiceOptions chosen choices) (choiceOptions chosen' choices') :=
  allAlike_map hs fun _ _ => alike_option ..

/-- The control for a field does not depend on its value but for what is shown in it. -/
theorem alike_input (v v' : Json) {choices choices' : List Choice} (hs : choices.length = choices'.length) :
    Alike (input t name type v choices) (input t name type v' choices') := by
  refine alike_labelled t name ?_
  split
  · exact alike_select t name (.keep (allAlike_choiceOptions _ _ hs))
  · exact alike_select t name (.cons (alike_option ..) (.one (alike_option ..)))
  · exact alike_within "textarea" (.one (alike_text ..))
  · refine alike_void "input" (.keep (.keep (.keep (.one ?_))))
    have hp (w : Json) : brackets (attrChars
        (if (Html.shown w).isEmpty then .bare "" else .named "value" (Html.shown w))) = [] := by
      by_cases he : (Html.shown w).isEmpty
      · rw [if_pos he]
        rfl
      · rw [if_neg he, brackets_named]
        decide
    exact ⟨(hp v).trans (hp v').symm⟩

theorem alike_filterInput (v v' : Json) {choices choices' : List Choice}
    (hs : choices.length = choices'.length) :
    Alike (filterInput t name type v choices) (filterInput t name type v' choices') := by
  refine alike_labelled t name ?_
  split
  · exact alike_select t _ (.keep (allAlike_choiceOptions _ _ hs))
  · exact alike_select t _ (.keep (.cons (alike_option ..) (.one (alike_option ..))))
  · refine alike_void "input" (.keep (.keep (.keep ?_)))
    exact .one (attrAlike_named ..)

theorem alike_sortSelect (sort dir sort' dir' : String) :
    Alike (sortSelect t m sort dir) (sortSelect t m sort' dir') := by
  refine alike_within "label" (.keep (.one ?_))
  refine alike_within "div" (.cons ?_ (.one ?_))
  · exact alike_select t "sort" (allAlike_map_of_forall (fun f => alike_option ..) _)
  · exact alike_select t "dir" (.cons (alike_option ..) (.one (alike_option ..)))

/-! ## Frames -/

theorem alike_header {title title' : List Html} (hs : AllAlike title title') (below : Html)
    (mark mark' : String) : Alike (header t title below mark) (header t title' below mark') := by
  refine alike_within "header" (.cons ?_ (.one ?_))
  · refine alike_within "div" (.cons ?_ (.refl _))
    exact alike_within "h1" hs
  · exact alike_within "span" (.one (alike_text mark mark'))

theorem alike_panel (title : String)
    (hs : AllAlike cont cont') : Alike (panel t title cont) (panel t title cont') :=
  alike_within "div" (.keep hs)

theorem alike_form (act act' : String) {hidden hidden' fs fs' : List Html}
    (hs : AllAlike hidden hidden') (hsa : AllAlike fs fs') (button lb : String) :
    Alike (form t act hidden fs button lb) (form t act' hidden' fs' button lb) := by
  refine alike_element "form" (.keep (.cons (attrAlike_named ..) (.refl _))) ?_
  refine hs.append (.cons ?_ (.refl _))
  exact alike_within "div" hsa

theorem alike_table (titles : List Html) {rows rows' : List Html} (hs : AllAlike rows rows') :
    Alike (table t titles rows) (table t titles rows') := by
  refine alike_within "div" (.one ?_)
  refine alike_within "table" (.keep (.one ?_))
  exact alike_within "tbody" hs

theorem alike_cell (hs : AllAlike cont cont') :
    Alike (cell t cont) (cell t cont') :=
  alike_within "td" hs

theorem markup_shell (title : String) (links : List Link)
    (hs : AllAlike cont cont') :
    markup (shell app title cont links) = markup (shell app title cont' links) := by
  refine markup_render (.keep (.one ?_))
  refine alike_within "html" (.keep (.one ?_))
  refine alike_within "body" (.keep (.one ?_))
  refine alike_within "div" (.one ?_)
  refine alike_within "div" (.keep (.one ?_))
  exact alike_within "main" hs

/-! ## Pages -/

def SameCounts (choices choices' : Choices) : Prop :=
  ∀ field, (choices.of field).length = (choices'.of field).length

theorem pageInputs_cases (hs : SameCounts choices choices') (fs : List String) :
    (∃ f, pageInputs t m choices fs = .error f ∧ pageInputs t m choices' fs = .error f) ∨
      ∃ ins ins', pageInputs t m choices fs = .ok ins ∧
        pageInputs t m choices' fs = .ok ins' ∧ AllAlike ins ins' := by
  induction fs with
  | nil => exact .inr ⟨[], [], rfl, rfl, .refl []⟩
  | cons f fs ih =>
    rw [pageInputs, pageInputs]
    cases m.fields.get? f with
    | none => exact .inl ⟨f, rfl, rfl⟩
    | some type =>
      rcases ih with ⟨missing, left, right⟩ | ⟨ins, ins', left, right, ha⟩
      · exact .inl ⟨missing, by rw [left]; rfl, by rw [right]; rfl⟩
      · refine .inr ⟨_, _, by rw [left]; rfl, by rw [right]; rfl, ?_⟩
        exact .cons (alike_input t f type _ _ (hs f)) ha

theorem markup_page (p : Page)
    (hs : rows.length = rows'.length) (hsa : SameCounts choices choices') :
    (page app m p rows choices).map markup = (page app m p rows' choices').map markup := by
  unfold page
  rcases pageInputs_cases (themeOf app) m hsa (pageFields m p) with
    ⟨missing, left, right⟩ | ⟨ins, ins', left, right, ha⟩
  · simp only [left, right, bind, Except.bind]
  · simp only [left, right, bind, bind, pure, pure, map]
    refine congrArg ok (markup_shell app _ _ (.one ?_))
    refine alike_within "div" (.keep (.cons ?_ (.one ?_)))
    · refine alike_panel _ "Create" (.one ?_)
      exact alike_form _ _ _ (.refl []) ha "btn_primary" "Create"
    · refine alike_panel _ "Entries" (.one (alike_table _ _ (allAlike_map hs ?_)))
      intro r r'
      refine alike_within "tr" (.cons ?_ (allAlike_map_of_forall (fun f => ?_) _))
      · exact alike_cell _ (.one (alike_text ..))
      · exact alike_cell _ (.one (alike_text ..))

/-! ## The administration -/

theorem brackets_cellContent (choices : Choices) (fd : String) (v : Json) :
    brackets (allChars (cellContent m choices fd v)) = [] := by
  have hv : brackets (chars (Html.value v)) = [] := by
    rw [Html.value, chars, brackets_escapeChars]
  have ha : brackets (allChars [Html.value v]) = [] := by
    rw [allChars, allChars, append_nil, hv]
  unfold cellContent
  simp only
  split
  · split
    · exact ha
    · have dot : brackets " · ".toList = [] := by decide
      simp only [allChars, chars, brackets_append, hv, dot, brackets_escapeChars, append_nil]
  · exact ha

theorem alike_tokenField (tok tok' : String) : Alike (tokenField tok) (tokenField tok') :=
  alike_void "input" (.keep (.keep (.one (attrAlike_named ..))))

theorem alike_adminRow (fs : List String) (choices choices' : Choices) (tok tok' : String)
    (r r' : Json.Members) :
    Alike (adminRow app t m fs choices tok r) (adminRow app t m fs choices' tok' r') := by
  refine alike_within "tr" (.append (.cons ?_ ?_) (.one ?_))
  · exact alike_cell t (.one (alike_text ..))
  · refine allAlike_map_of_forall (fun f => alike_cell t ?_) fs
    exact ⟨(brackets_cellContent _ _ _ _).trans (brackets_cellContent _ _ _ _).symm⟩
  · refine alike_cell t (.cons ?_ (.keep (.one ?_)))
    · exact alike_element "a" (.keep (.one (attrAlike_named ..))) (.refl _)
    · refine alike_element "form" (.keep (.cons (attrAlike_named ..) (.refl _))) ?_
      exact .cons (alike_tokenField tok tok') (.refl _)

def SameColumns (l l' : Listing) : Prop :=
  l.visible = l'.visible ∧ l.hidden = l'.hidden

theorem markup_pageAddress (l : Listing) (page : Int) : markup (l.pageAddress page) = [] := by
  rw [Listing.pageAddress, markup_append, Url.markup_encodeForm]
  decide

theorem alike_pageLinks (l l' : Listing) : Alike (pageLinks t l) (pageLinks t l') := by
  have off (b b' : Bool) : markup (t.classes "btn_outline" ++ " " ++
      (if b then "opacity-40 pointer-events-none" else "")) =
      markup (t.classes "btn_outline" ++ " " ++ (if b' then "opacity-40 pointer-events-none" else "")) := by
    rw [markup_append, markup_append _ (if b' then _ else _)]
    congr 1
    cases b <;> cases b' <;> decide
  have hl (lb : String) (page page' : Int) (b b' : Bool) :
      Alike (.element "a" [.fixed "class" (t.classes "btn_outline" ++ " " ++
          (if b then "opacity-40 pointer-events-none" else "")),
          .fixed "href" (l.pageAddress page)] [.text lb])
        (.element "a" [.fixed "class" (t.classes "btn_outline" ++ " " ++
          (if b' then "opacity-40 pointer-events-none" else "")),
          .fixed "href" (l'.pageAddress page')] [.text lb]) := by
    refine alike_element "a" (.cons (attrAlike_fixed _ (off b b')) (.one ?_)) (.refl _)
    refine attrAlike_fixed _ ?_
    rw [markup_pageAddress, markup_pageAddress]
  refine alike_within "div" (.cons ?_ (.one ?_))
  · exact alike_within "span" (.one (alike_text ..))
  · exact alike_within "div" (.cons (hl ..) (.one (hl ..)))

theorem alike_filterForm (l l' : Listing) (hs : SameCounts choices choices') :
    Alike (filterForm t m l choices) (filterForm t m l' choices') := by
  refine alike_within "form" (.cons ?_ (.cons ?_ (.one ?_)))
  · refine alike_within "div" (.cons ?_ (.cons (alike_sortSelect ..) (.refl _)))
    refine alike_within "label" (.keep (.one ?_))
    refine alike_void "input" (.keep (.keep (.cons ?_ (.refl _))))
    exact attrAlike_named ..
  · refine alike_within "div" (allAlike_map_of_forall (fun f => ?_) m.fields)
    exact alike_filterInput t f.1 f.2 _ _ (hs f.1)
  · refine alike_void "input" (.keep (.keep (.one ?_)))
    exact attrAlike_named ..

theorem allAlike_inputs (hs : SameCounts choices choices') (v v' : String → Json) :
    AllAlike (m.fields.map fun f => input t f.1 f.2 (v f.1) (choices.of f.1))
      (m.fields.map fun f => input t f.1 f.2 (v' f.1) (choices'.of f.1)) :=
  allAlike_map_of_forall (fun f => alike_input t f.1 f.2 _ _ (hs f.1)) m.fields

theorem markup_adminModel {l l' : Listing} (tok tok' : String)
    (hsa : rows.length = rows'.length) (hs : SameColumns l l') (same : SameCounts choices choices') :
    markup (adminModel app m rows l tok choices) = markup (adminModel app m rows' l' tok' choices') := by
  unfold adminModel
  rw [← hs.1, ← hs.2]
  refine markup_shell app _ _ (.one (alike_within "div" (.cons ?_ (.cons ?_
    (.cons ?_ (.cons ?_ (.one (alike_pageLinks ..))))))))
  · exact alike_header _ (.refl _) _ _ _
  · refine alike_panel _ "Create" (.one ?_)
    refine alike_form _ _ _ (.one (alike_tokenField tok tok')) ?_ _ _
    exact allAlike_inputs _ m same (fun _ => .str "") fun _ => .str ""
  · exact alike_panel _ "Filter" (.one (alike_filterForm _ m l l' same))
  · refine alike_panel _ "Rows" (.one (alike_table _ _ (allAlike_map hsa ?_)))
    exact alike_adminRow app _ m _ choices choices' tok tok'

theorem markup_adminEdit (row row' : Json.Members) (tok tok' : String) (hs : SameCounts choices choices') :
    markup (adminEdit app m row tok choices) = markup (adminEdit app m row' tok' choices') := by
  refine markup_shell app _ _ (.one (alike_within "div" (.cons ?_ (.one ?_))))
  · exact alike_header _ (.one (alike_text ..)) _ _ _
  · refine alike_panel _ "Update" (.one ?_)
    refine alike_form _ _ _ (.one (alike_tokenField tok tok')) ?_ _ _
    exact allAlike_inputs _ m hs (fun f => (row.get? f).getD (.str ""))
      fun f => (row'.get? f).getD (.str "")

/-- What is stored cannot change the markup of a page: it is settled by the application, the model
and the page, the number of rows and the number of choices for each field. Rows, choices, the search
with its filters and order, the numbers of pages and the token may be any. -/
theorem markup_eq_of_counts (app : Spec.App) (m : Spec.Model) (p : Spec.Page)
    {rows rows' : List Json.Members} {choices choices' : Choices} {l l' : Listing}
    (row row' : Json.Members) (token token' : String) (sameRows : rows.length = rows'.length)
    (sameCounts : SameCounts choices choices') (sameColumns : SameColumns l l') :
    (page app m p rows choices).map markup = (page app m p rows' choices').map markup ∧
      markup (adminModel app m rows l token choices) =
        markup (adminModel app m rows' l' token' choices') ∧
      markup (adminEdit app m row token choices) =
        markup (adminEdit app m row' token' choices') :=
  ⟨markup_page app m p sameRows sameCounts,
    markup_adminModel app m token token' sameRows sameColumns sameCounts,
    markup_adminEdit app m row row' token token' sameCounts⟩

def loanModel : Model :=
  ⟨"loan", [("note", .text), ("book", .ref "book")]⟩

def loanApp : App where
  name := "library"
  models := [loanModel]
  adminEnabled := true

def loanPage : Page where
  path := "/loans"
  model := "loan"

def loanRow (s : String) : Json.Members :=
  [("id", .int 1), ("note", .str s), ("book", .str s)]

def loanChoices (s : String) : Choices :=
  [("book", [⟨.str s, s⟩])]

def loanListing (s : String) : Listing where
  query := s
  sort := s
  direction := s
  filters := [("note", s), (s, s)]
  page := 1
  limit := 20
  total := 1

theorem sameCounts_loanChoices (s s' : String) : SameCounts (loanChoices s) (loanChoices s') := by
  intro fd
  by_cases hb : "book" = fd <;> simp [Choices.of, loanChoices, Entries.get?, hb]

theorem markup_eq_of_counts_script : let plain := "by hand"
    let script := "\"><script>alert('x')</script>"
    [loanRow plain].length = [loanRow script].length ∧
      SameCounts (loanChoices plain) (loanChoices script) ∧
      SameColumns (loanListing plain) (loanListing script) ∧
      (page loanApp loanModel loanPage [loanRow plain] (loanChoices plain)).map markup =
        (page loanApp loanModel loanPage [loanRow script] (loanChoices script)).map markup ∧
      markup (adminModel loanApp loanModel [loanRow plain] (loanListing plain) plain
          (loanChoices plain)) =
        markup (adminModel loanApp loanModel [loanRow script] (loanListing script) script
          (loanChoices script)) ∧
      markup (adminEdit loanApp loanModel (loanRow plain) plain (loanChoices plain)) =
        markup (adminEdit loanApp loanModel (loanRow script) script (loanChoices script)) :=
  ⟨rfl, sameCounts_loanChoices _ _, ⟨rfl, rfl⟩,
    markup_eq_of_counts loanApp loanModel loanPage _ _ _ _ rfl (sameCounts_loanChoices _ _)
      ⟨rfl, rfl⟩⟩

end View

end Appwright
