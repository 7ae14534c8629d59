import Appwright.Proofs.Store.Reading
import Appwright.Proofs.Text
import Mathlib.Algebra.GroupWithZero.Nat

/-!
# Statements and the names in them

The text of a statement names the words of the language and some names, and has a place for every
value that is bound to it. Both are kept when texts are put together, as long as no name runs into
the next, so they hold of a statement as soon as they hold of the fields that it tests and orders by.
-/

namespace Appwright.Store

open List String Text

/-! ## Names in a text -/

def isNameChar (c : Char) : Bool :=
  isIdentRest c || 128 ≤ c.toNat

/-- The names in a list of characters; `current` holds the one being read, backwards. -/
def namesFrom (current : List Char) : List Char → List (List Char)
  | [] => if current.isEmpty then [] else [current.reverse]
  | c :: cs =>
    if isNameChar c then namesFrom (c :: current) cs
    else if current.isEmpty then namesFrom [] cs
    else current.reverse :: namesFrom [] cs

def namesIn (s : String) : List String :=
  (namesFrom [] s.toList).map ofList

theorem namesFrom_append_cons {sep : Char} (ha : isNameChar sep = false) (xs ys : List Char)
    (cur : List Char) : namesFrom cur (xs ++ sep :: ys) = namesFrom cur xs ++ namesFrom [] ys := by
  induction xs generalizing cur with
  | nil => cases cur <;> simp [namesFrom, ha]
  | cons c cs ih =>
    by_cases name : isNameChar c
    · simp [namesFrom, name, ih]
    · cases cur <;> simp [namesFrom, name, ih]

theorem namesFrom_cons_of_all {xs : List Char} (all : ∀ c ∈ xs, isNameChar c) (c : Char)
    (cur : List Char) : namesFrom (c :: cur) xs = [(c :: cur).reverse ++ xs] := by
  induction xs generalizing c cur with
  | nil => simp [namesFrom]
  | cons d cs ih =>
    obtain ⟨first, ho⟩ := forall_mem_cons.1 all
    rw [namesFrom, if_pos first, ih ho d (c :: cur)]
    simp

theorem namesFrom_of_all {xs : List Char} (hf : xs ≠ [])
    (all : ∀ c ∈ xs, isNameChar c) : namesFrom [] xs = [xs] := by
  cases xs with
  | nil => exact absurd rfl hf
  | cons c cs =>
    obtain ⟨first, ho⟩ := forall_mem_cons.1 all
    rw [namesFrom, if_pos first, namesFrom_cons_of_all ho]
    rfl

def EndsApart (s : String) : Prop :=
  ∃ sep, s.toList.getLast? = some sep ∧ isNameChar sep = false

def BeginsApart (s : String) : Prop :=
  ∃ sep, s.toList.head? = some sep ∧ isNameChar sep = false

theorem EndsApart.append_left {b : String} (he : EndsApart b) (a : String) : EndsApart (a ++ b) := by
  obtain ⟨sep, hl, ha⟩ := he
  exact ⟨sep, by rw [toList_append, getLast?_append, hl]; rfl, ha⟩

theorem BeginsApart.append_right {a : String} (hb : BeginsApart a) (b : String) : BeginsApart (a ++ b) := by
  obtain ⟨sep, first, ha⟩ := hb
  exact ⟨sep, by rw [toList_append, head?_append, first]; rfl, ha⟩

theorem namesIn_append_of_endsApart {a : String} (he : EndsApart a) (b : String) :
    namesIn (a ++ b) = namesIn a ++ namesIn b := by
  obtain ⟨sep, hl, ha⟩ := he
  obtain ⟨pre, hs⟩ := List.getLast?_eq_some_iff.1 hl
  have hal := namesFrom_append_cons ha pre [] []
  rw [namesIn, namesIn, namesIn, String.toList_append, hs, List.append_assoc,
    List.singleton_append, namesFrom_append_cons ha, hal]
  simp [namesFrom]

theorem namesIn_append_of_beginsApart (a : String) {b : String} (hb : BeginsApart b) :
    namesIn (a ++ b) = namesIn a ++ namesIn b := by
  obtain ⟨sep, first, ha⟩ := hb
  obtain ⟨rest, hs⟩ := head?_eq_some_iff.1 first
  rw [namesIn, namesIn, namesIn, toList_append, hs, namesFrom_append_cons ha, ← map_append]
  simp [namesFrom, ha]

/-! ## Texts of statements -/

def statementWords : List String :=
  ["SELECT", "COUNT", "as", "count", "FROM", "WHERE", "LIKE", "OR", "AND", "ORDER", "BY", "ASC",
    "DESC", "asc", "desc", "LIMIT", "OFFSET"]

/-- A text in which nothing is named but words of the language and some names, and in which there
are places for a number of values. -/
structure Spelled (names : List String) (places : Nat) (s : String) : Prop where
  named : ∀ name ∈ namesIn s, name ∈ statementWords ∨ name ∈ names
  counted : s.toList.count '?' = places

namespace Spelled

variable {ns : List String} {m n : Nat} {a b : String}

theorem fixed {s : String} (words : (namesIn s).all statementWords.contains)
    (counted : s.toList.count '?' = n) : Spelled ns n s where
  named name mem := .inl (contains_iff_mem.1 (all_eq_true.1 words name mem))
  counted

theorem append (first : Spelled ns m a) (hs : Spelled ns n b)
    (ha : EndsApart a ∨ BeginsApart b) : Spelled ns (m + n) (a ++ b) := by
  have hj : namesIn (a ++ b) = namesIn a ++ namesIn b := by
    rcases ha with he | hb
    · exact namesIn_append_of_endsApart he b
    · exact namesIn_append_of_beginsApart a hb
  constructor
  · rw [hj]
    exact forall_mem_append.2 ⟨first.named, hs.named⟩
  · rw [toList_append, count_append, first.counted, hs.counted]

theorem of_places (hs : Spelled ns m a) (hsa : m = n) : Spelled ns n a := hsa ▸ hs

theorem append_fixed (first : Spelled ns m a) (b : String)
    (hw : (namesIn b).all statementWords.contains)
    (hb : b.toList.head? = some ' ') : Spelled ns (m + b.toList.count '?') (a ++ b) :=
  first.append (fixed hw rfl) (.inr ⟨' ', hb, rfl⟩)

theorem intercalate {sep : String} (hb : Spelled ns 0 sep) (hbe : BeginsApart sep)
    (he : EndsApart sep) {ps : List Nat} {ts : List String} (hea : Forall₂ (Spelled ns) ps ts) :
    Spelled ns ps.sum (sep.intercalate ts) := by
  induction hea with
  | nil =>
    rw [String.intercalate_nil]
    exact fixed rfl rfl
  | @cons n text ps ts first hr ih =>
    cases hr with
    | nil =>
      rw [String.intercalate_singleton, List.sum_singleton]
      exact first
    | @cons k text' ps ts hs hr =>
      rw [String.intercalate_cons_cons, List.sum_cons]
      have hf := first.append hb (.inr hbe)
      exact hf.append ih (.inl (he.append_left text))

end Spelled

/-! ## Identifiers -/

theorem isNameChar_of_isIdentRest {c : Char} (hr : isIdentRest c) : isNameChar c := by
  rw [isNameChar, hr, Bool.true_or]

variable {name field : String}

theorem namesIn_of_isIdentLine (hi : isIdentLine name) : namesIn name = [nameOf name] := by
  obtain ⟨hf, all, hs⟩ := trimBack_of_isIdentLine hi
  have ha := namesFrom_of_all hf fun c mem => isNameChar_of_isIdentRest (all c mem)
  have hfo : namesFrom [] name.toList = [(trimBack name).toList] := by
    rcases hs with hp | hl
    · rw [hp, ha]
    · rw [hl, namesFrom_append_cons (by decide), ha]
      rfl
  rw [namesIn, hfo, map_singleton, ofList_toList, nameOf]

theorem count_of_isIdentLine (hi : isIdentLine name) : name.toList.count '?' = 0 := by
  obtain ⟨-, all, hs⟩ := trimBack_of_isIdentLine hi
  have none : (trimBack name).toList.count '?' = 0 :=
    count_eq_zero.2 fun mem => absurd (all _ mem) (by decide)
  rcases hs with hp | hl
  · rw [hp, none]
  · rw [hl, count_append, none]
    rfl

theorem spelled_of_isIdentLine {names : List String} (hi : isIdentLine name)
    (mem : nameOf name ∈ names) : Spelled names 0 name where
  named n ha := by
    rw [namesIn_of_isIdentLine hi] at ha
    exact .inr (mem_singleton.1 ha ▸ mem)
  counted := count_of_isIdentLine hi

/-! ## Clauses and statements -/

variable {ns : List String} {m : Spec.Model} {cls : List Clause} {order : Order}

theorem spelled_like (hn : Spelled ns 0 field) : Spelled ns 1 (field ++ " LIKE ?") :=
  (hn.append_fixed " LIKE ?" (by decide +kernel) (by decide +kernel)).of_places rfl

theorem spelled_equals (hn : Spelled ns 0 field) : Spelled ns 1 (field ++ " = ?") :=
  (hn.append_fixed " = ?" (by decide +kernel) (by decide +kernel)).of_places rfl

theorem spelled_anyLike {fs : List String} (hn : ∀ f ∈ fs, Spelled ns 0 f) : Spelled ns fs.length
      ("(" ++ " OR ".intercalate (fs.map fun f => f ++ " LIKE ?") ++ ")") := by
  have he : Forall₂ (Spelled ns) (fs.map fun _ => 1) (fs.map fun f => f ++ " LIKE ?") := by
    rw [forall₂_map_left_iff, forall₂_map_right_iff, forall₂_same]
    exact fun f mem => spelled_like (hn f mem)
  have hb : Spelled ns 0 " OR " := .fixed (by decide +kernel) rfl
  have ht := hb.intercalate ⟨' ', rfl, rfl⟩ ⟨' ', rfl, rfl⟩ he
  have ho : Spelled ns 0 "(" := .fixed (by decide +kernel) rfl
  have hc : Spelled ns 0 ")" := .fixed (by decide +kernel) rfl
  refine ((ho.append ht (.inl ⟨'(', rfl, rfl⟩)).append hc (.inr ⟨')', rfl, rfl⟩)).of_places ?_
  simp

theorem spelled_clause {c : Clause} (hf : ∀ f ∈ clauseFields [c], Spelled ns 0 f) :
    Spelled ns c.parameters.length c.statement := by
  cases c with
  | like field pat => exact spelled_like (hf field (by simp [clauseFields]))
  | equals field inp => exact spelled_equals (hf field (by simp [clauseFields]))
  | anyLike tested pat =>
    rw [Clause.parameters, List.length_map]
    exact spelled_anyLike fun f mem => hf f (by simpa [clauseFields] using mem)

theorem whereStatement_nil : whereStatement [] = "" := rfl

theorem whereStatement_cons (c : Clause) (cs : List Clause) :
    whereStatement (c :: cs) = " WHERE " ++ " AND ".intercalate ((c :: cs).map Clause.statement) :=
  rfl

theorem whereStatement_congr {others : List Clause}
    (hs : cls.map Clause.statement = others.map Clause.statement) :
    whereStatement cls = whereStatement others := by
  cases cls with
  | nil => rw [map_eq_nil_iff.1 hs.symm]
  | cons c cs =>
    cases others with
    | nil => cases hs
    | cons d ds => rw [whereStatement_cons, whereStatement_cons, hs]

theorem spelled_where {head : String} {n : Nat} (hf : Spelled ns n head)
    (hfi : ∀ f ∈ clauseFields cls, Spelled ns 0 f) :
    Spelled ns (n + (cls.flatMap Clause.parameters).length) (head ++ whereStatement cls) := by
  cases cls with
  | nil =>
    rw [whereStatement_nil, append_empty]
    exact hf
  | cons c cs =>
    have he : Forall₂ (Spelled ns) ((c :: cs).map fun c => c.parameters.length)
        ((c :: cs).map Clause.statement) := by
      rw [forall₂_map_left_iff, forall₂_map_right_iff, forall₂_same]
      refine fun d mem => spelled_clause fun f ht => hfi f ?_
      exact mem_flatMap.2 ⟨d, mem, by simpa [clauseFields] using ht⟩
    have hw : Spelled ns 0 " WHERE " := .fixed (by decide +kernel) rfl
    have hb : Spelled ns 0 " AND " := .fixed (by decide +kernel) rfl
    have hte := hb.intercalate ⟨' ', rfl, rfl⟩ ⟨' ', rfl, rfl⟩ he
    have hc := hw.append hte (.inl ⟨' ', rfl, rfl⟩)
    rw [whereStatement_cons, length_flatMap]
    refine (hf.append hc (.inr (BeginsApart.append_right ⟨' ', rfl, rfl⟩ _))).of_places ?_
    rw [Nat.zero_add]

theorem Order.direction_eq (o : Order) :
    o.direction = "ASC" ∨ o.direction = "DESC" ∨ o.direction = "asc" ∨ o.direction = "desc" := by
  unfold direction
  split
  · exact .inr (.inl rfl)
  · exact .inl rfl
  · exact .inr (.inr (.inr rfl))
  · exact .inr (.inr (.inl rfl))

theorem Order.statement_of_not_small {o : Order} (hl : o.small = false) :
    o.statement = o.field ++ " ASC" ∨ o.statement = o.field ++ " DESC" := by
  obtain ⟨field, descending, small⟩ := o
  cases hl
  cases descending with
  | false =>
    have hj : field ++ " " ++ "ASC" = field ++ (" " ++ "ASC") := append_assoc
    exact .inl hj
  | true =>
    have hj : field ++ " " ++ "DESC" = field ++ (" " ++ "DESC") := append_assoc
    exact .inr hj

theorem spelled_order (field : Spelled ns 0 order.field) : Spelled ns 0 order.statement := by
  have hb := field.append_fixed " " (by decide +kernel) (by decide +kernel)
  have hw : Spelled ns 0 order.direction := by
    rcases order.direction_eq with hw | hw | hw | hw
    all_goals
      rw [hw]
      exact .fixed (by decide +kernel) rfl
  exact hb.append hw (.inl (EndsApart.append_left ⟨' ', rfl, rfl⟩ _))

theorem text_listStatement (m : Spec.Model) (clauses : List Clause) (order : Order)
    (lim off : Int) : (listStatement m clauses order lim off).text =
      "SELECT * FROM " ++ m.name ++ whereStatement clauses ++ " ORDER BY " ++ order.statement ++
        " LIMIT ? OFFSET ?" :=
  rfl

theorem text_countStatement (m : Spec.Model) (clauses : List Clause) : (countStatement m clauses).text =
      "SELECT COUNT(*) as count FROM " ++ m.name ++ whereStatement clauses :=
  rfl

theorem spelled_countStatement (hm : Spelled ns 0 m.name) (hf : ∀ f ∈ clauseFields cls, Spelled ns 0 f) :
    Spelled ns (countStatement m cls).parameters.length (countStatement m cls).text := by
  have head : Spelled ns 0 "SELECT COUNT(*) as count FROM " := .fixed (by decide +kernel) rfl
  have hfr := head.append hm (.inl ⟨' ', rfl, rfl⟩)
  rw [text_countStatement, parameters_countStatement]
  exact (spelled_where hfr hf).of_places (Nat.zero_add _)

theorem spelled_listStatement (hm : Spelled ns 0 m.name)
    (hf : ∀ f ∈ clauseFields cls, Spelled ns 0 f) (field : Spelled ns 0 order.field) (lim off : Int) :
    Spelled ns (listStatement m cls order lim off).parameters.length
      (listStatement m cls order lim off).text := by
  have head : Spelled ns 0 "SELECT * FROM " := .fixed (by decide +kernel) rfl
  have hfr := spelled_where (head.append hm (.inl ⟨' ', rfl, rfl⟩)) hf
  have hor := hfr.append_fixed " ORDER BY " (by decide +kernel) (by decide +kernel)
  have hn := hor.append (spelled_order field) (.inl (EndsApart.append_left ⟨' ', rfl, rfl⟩ _))
  have hw := hn.append_fixed " LIMIT ? OFFSET ?" (by decide +kernel) (by decide +kernel)
  rw [text_listStatement, parameters_listStatement, List.length_append]
  refine hw.of_places ?_
  have ho : " ORDER BY ".toList.count '?' = 0 := rfl
  have hb : " LIMIT ? OFFSET ?".toList.count '?' = 2 := rfl
  rw [ho, hb]
  simp

/-! ## Models -/

structure Identified (m : Spec.Model) : Prop where
  name : isIdentLine m.name = true
  fields : ∀ f ∈ m.fields.names, isIdentLine f = true

/-- The names that a model has for a statement: that of the column of ids, its own and those of its
fields. -/
def namesOf (m : Spec.Model) : List String :=
  idColumn :: nameOf m.name :: m.fields.names.map nameOf

theorem Identified.spelled_name (hi : Identified m) : Spelled (namesOf m) 0 m.name :=
  spelled_of_isIdentLine hi.name (mem_cons_of_mem _ mem_cons_self)

theorem Identified.spelled_field (hi : Identified m)
    (hk : field = idColumn ∨ field ∈ m.fields.names) : Spelled (namesOf m) 0 field := by
  rcases hk with rfl | hd
  · exact spelled_of_isIdentLine (by decide +kernel) mem_cons_self
  · refine spelled_of_isIdentLine (hi.fields field hd) ?_
    exact mem_cons_of_mem _ (mem_cons_of_mem _ (mem_map_of_mem hd))

end Appwright.Store
