import Appwright.Proofs.Entries
import Appwright.Proofs.Json.Numbers
import Appwright.Proofs.Json.Writer

/-!
# JSON texts read back

A value is read back from its text as it was, if its whole numbers are short enough to be written and
no object has two members of one name (`Legible`). This holds in every style that adds only white
space around commas and colons (`read_write`).
-/

namespace Appwright.Json

open List Decimal Bool Text Char

open Sexpr (signChars)

/-! ## Strings -/

section Strings

variable {start acc rest : List Char}

theorem readString_simple {e d : Char} (hl : simpleEscape? e = some d) :
    readString start acc ('\\' :: e :: rest) = readString start (d :: acc) rest := by
  have ho : e ≠ 'u' := by
    rintro rfl
    cases hl
  rw [readString, hl]
  · exact fun _ _ _ _ _ _ _ _ _ _ hu => absurd hu ho
  · exact fun _ _ _ _ _ _ hu => absurd hu ho

theorem readString_unit {a b c d : Char} {n : Nat} (hv : unitValue? a b c d = some n)
    (more : rest ≠ []) (hsi : ∀ e f g h last behind,
      rest = '\\' :: 'u' :: e :: f :: g :: h :: last :: behind → 0xD800 ≤ n ∧ n < 0xDC00 →
      ∃ m, unitValue? e f g h = some m ∧ ¬ (0xDC00 ≤ m ∧ m < 0xE000)) :
    readString start acc ('\\' :: 'u' :: a :: b :: c :: d :: rest) =
      readString start (unitChar n :: acc) rest := by
  obtain ⟨last, rest, rfl⟩ := exists_cons_of_ne_nil more
  by_cases hs : ∃ e f g h next behind, last = '\\' ∧ rest = 'u' :: e :: f :: g :: h :: next :: behind
  · obtain ⟨e, f, g, h, next, behind, rfl, rfl⟩ := hs
    rw [readString.eq_4, hv]
    dsimp only
    split
    next high =>
      obtain ⟨m, hf, ho⟩ := hsi e f g h next behind rfl high
      rw [hf]
      exact if_neg ho
    next => rfl
  · rw [readString.eq_5, hv]
    intro e f g h next behind hsl hp
    exact hs ⟨e, f, g, h, next, behind, hsl, hp⟩

theorem readString_plain {c : Char} (hq : c ≠ '"') (hs : c ≠ '\\') (high : ¬ c.toNat < 32) :
    readString start acc (c :: rest) = readString start (c :: acc) rest := by
  rw [readString.eq_7, if_neg high]
  · exact hq
  · exact fun h _ => hs h
  · exact fun _ _ _ _ _ _ _ _ _ _ h _ => hs h
  · exact fun _ _ _ _ _ _ h _ => hs h
  · exact fun _ _ h _ => hs h

theorem hex_low : ∀ n < 32, (hex 4 n).toList =
      ['0', '0', Nat.digitChar (n / 16), Nat.digitChar (n % 16)] ∧
    unitValue? '0' '0' (Nat.digitChar (n / 16)) (Nat.digitChar (n % 16)) = some n := by
  decide +kernel

theorem escapedChar_low : ∀ n < 32, escapedChar false (ofNat n) = unitEscape n ∨
    ['b', 'f', 'n', 'r', 't'].any (fun e => escapedChar false (ofNat n) == ['\\', e] &&
      simpleEscape? e == some (Char.ofNat n)) := by
  decide +kernel

theorem escapedChar_of_mem_specials {c : Char} (hs : c ∈ specials) :
    (∃ e, escapedChar false c = ['\\', e] ∧ simpleEscape? e = some c) ∨
      ∃ n < 32, c = Char.ofNat n ∧ escapedChar false c = unitEscape n := by
  rcases mem_cons.1 hs with rfl | hs
  · exact .inl ⟨'"', rfl, rfl⟩
  rcases mem_cons.1 hs with rfl | hs
  · exact .inl ⟨'\\', rfl, rfl⟩
  obtain ⟨n, hn, rfl⟩ := mem_map.1 hs
  have low := mem_range.1 hn
  rcases escapedChar_low n low with hu | hl
  · exact .inr ⟨n, low, rfl, hu⟩
  · obtain ⟨e, -, hf⟩ := any_eq_true.1 hl
    rw [and_eq_true, beq_iff_eq, beq_iff_eq] at hf
    exact .inl ⟨e, hf⟩

theorem readString_escapedChar (c : Char) (more : rest ≠ []) :
    readString start acc (escapedChar false c ++ rest) = readString start (c :: acc) rest := by
  by_cases hs : c ∈ specials
  · rcases escapedChar_of_mem_specials hs with ⟨e, he, hl⟩ | ⟨n, low, rfl, he⟩
    · rw [he]
      exact readString_simple hl
    · obtain ⟨hd, hv⟩ := hex_low n low
      have hc : unitChar n = Char.ofNat n := if_neg (by omega)
      rw [he, unitEscape, hd, ← hc]
      exact readString_unit hv more fun _ _ _ _ _ _ _ high => absurd high (by omega)
  · rw [escapedChar_of_not_mem_specials hs]
    exact readString_plain (fun h => hs (h ▸ mem_cons_self))
      (fun h => hs (h ▸ mem_cons_of_mem _ mem_cons_self)) fun low => hs (mem_specials_of_lt low)

/-- The characters before a closing quote make up a string, whatever stands after the quote. -/
def Quotable (acc body : List Char) (t : String) : Prop :=
  ∀ start rest, readString start acc (body ++ '"' :: rest) = .ok (t, rest)

theorem quotable_escaped (acc cs : List Char) :
    Quotable acc (cs.flatMap (escapedChar false)) (String.ofList (acc.reverse ++ cs)) := by
  intro start rest
  induction cs generalizing acc with
  | nil => rw [flatMap_nil, nil_append, readString, append_nil]
  | cons c cs ih =>
    rw [flatMap_cons, append_assoc, readString_escapedChar c (by simp), ih]
    simp

end Strings

/-! ## What texts begin with -/

theorem ne_of_isDigit {c d : Char} (hd : d.isDigit) (ho : c.isDigit = false) : c ≠ d := by
  rintro rfl
  cases hd.symm.trans ho

def Numeric (cs : List Char) : Prop :=
  ∃ negative d rest, d.isDigit = true ∧ cs = signChars negative ++ d :: rest

theorem Spelling.Sound.numeric {s : Spelling} (hs : s.Sound) (neg : Bool) :
    Numeric (signChars neg ++ s.chars) := by
  obtain ⟨d, ds, hp⟩ := exists_cons_of_ne_nil hs.whole.1
  refine ⟨neg, d, ds ++ (s.fractionChars ++ s.exponentChars), ?_, ?_⟩
  · exact hs.whole.2 d (by rw [hp]; exact mem_cons_self)
  · rw [Spelling.chars, hp]
    rfl

theorem numeric_ofInt (n : Int) : Numeric (ofInt n).toList := by
  rw [Sexpr.toList_ofInt]
  have hn := (Spelling.sound_ofNat n.natAbs).numeric (decide (n < 0))
  rwa [Spelling.chars, Spelling.fractionChars, Spelling.exponentChars, Spelling.ofNat,
    Option.elim_none, Option.elim_none, append_nil, append_nil] at hn

theorem numeric_finiteText {x : Float} (hf : isFinite x) : Numeric (finiteText x).toList := by
  obtain ⟨s, hs, ht, -⟩ := exists_spelling_float hf
  rw [ht]
  exact hs.numeric _

variable {cs gap : List Char}

theorem Numeric.append (hn : Numeric cs) (rest : List Char) : Numeric (cs ++ rest) := by
  obtain ⟨neg, d, ds, hd, rfl⟩ := hn
  exact ⟨neg, d, ds ++ rest, hd, by simp⟩

theorem readValue_numeric (hn : Numeric cs) (fuel : Nat) : readValue (fuel + 1) cs = readNumber cs := by
  obtain ⟨neg, d, ds, hd, rfl⟩ := hn
  have ho (c : Char) : c.isDigit = false → c ≠ d := ne_of_isDigit hd
  have hw : readConstant? (signChars neg ++ d :: ds) = none := by
    cases neg <;> simp [readConstant?, constants, after?, signChars, ho 'n' rfl, ho 't' rfl,
        ho 'f' rfl, ho 'N' rfl, ho 'I' rfl, ho '-' rfl]
  have head {c : Char} (h : c.isDigit = false) (hm : c ≠ '-') (rest : List Char) :
      signChars neg ++ d :: ds ≠ c :: rest := by
    intro hs
    cases neg with
    | true => exact hm (cons.inj hs).1.symm
    | false => exact ho c h (cons.inj hs).1.symm
  rw [readValue.eq_5, hw]
  · exact head rfl (by decide)
  · exact head rfl (by decide)
  · exact head rfl (by decide)

variable {c : Char} {t : String} (x : Float)

theorem skipGap_cons (hs : isGap c = false) (cs : List Char) : skipGap (c :: cs) = c :: cs :=
  dropWhile_cons_of_neg (by simp [hs])

/-- A text begins with something that is neither white space nor the end of an array or an object,
nor the mark of a byte order. -/
def Opens (cs : List Char) : Prop :=
  ∃ c rest, cs = c :: rest ∧ isGap c = false ∧ c ∉ [']', '\x7d', Char.ofNat 0xFEFF]

theorem Numeric.opens (hn : Numeric cs) : Opens cs := by
  obtain ⟨neg, d, ds, hd, rfl⟩ := hn
  cases neg with
  | true => exact ⟨'-', d :: ds, rfl, by decide, by decide⟩
  | false =>
    have ho (c : Char) (h : c.isDigit = false) : d ≠ c := (ne_of_isDigit hd h).symm
    refine ⟨d, ds, rfl, ?_, ?_⟩
    · simp [isGap, ho ' ' rfl, ho '\t' rfl, ho '\n' rfl, ho '\r' rfl]
    · simp [ho ']' rfl, ho '\x7d' rfl, ho (ofNat 0xFEFF) rfl]

theorem Opens.append (ho : Opens cs) (rest : List Char) : Opens (cs ++ rest) := by
  obtain ⟨c, cs, rfl, ho⟩ := ho
  exact ⟨c, cs ++ rest, rfl, ho⟩

theorem Opens.skip_eq (ho : Opens cs) : skipGap cs = cs := by
  obtain ⟨c, cs, rfl, hs, -⟩ := ho
  exact skipGap_cons hs _

/-! ## White space -/

def AllGap (cs : List Char) : Prop :=
  ∀ c ∈ cs, isGap c = true

theorem AllGap.nil : AllGap [] := nofun

theorem AllGap.append {ds : List Char} (hc : AllGap cs) (hd : AllGap ds) : AllGap (cs ++ ds) :=
  fun c mem => (mem_append.1 mem).elim (hc c) (hd c)

theorem AllGap.skip (hbl : AllGap gap) (cs : List Char) : skipGap (gap ++ cs) = skipGap cs :=
  dropWhile_append_of_pos hbl

theorem AllGap.skip_cons (hbl : AllGap gap) (hs : isGap c = false) (cs : List Char) :
    skipGap (gap ++ c :: cs) = c :: cs := by
  rw [hbl.skip, skipGap_cons hs]

theorem AllGap.skip_opens (hbl : AllGap gap) (ho : Opens cs) : skipGap (gap ++ cs) = cs := by
  rw [hbl.skip, ho.skip_eq]

theorem endsNumber_cons (he : c = ',' ∨ c = ']' ∨ c = '\x7d') (rest : List Char) :
    EndsNumber (c :: rest) := by
  rintro _ ⟨⟩
  rcases he with rfl | rfl | rfl <;> decide

theorem AllGap.endsNumber (hbl : AllGap gap) (he : c = ',' ∨ c = ']' ∨ c = '\x7d')
    (rest : List Char) : EndsNumber (gap ++ c :: rest) := by
  cases gap with
  | nil => exact endsNumber_cons he rest
  | cons g gap =>
    have hw := hbl g mem_cons_self
    simp only [isGap, or_eq_true, beq_iff_eq] at hw
    rintro _ ⟨⟩
    rcases hw with ((rfl | rfl) | rfl) | rfl <;> decide

theorem readValue_array (hbl : AllGap gap) (ho : Opens cs) (fuel : Nat) :
    readValue (fuel + 1) ('[' :: (gap ++ cs)) = (readItems fuel [] cs).map fun p => (.arr p.1, p.2) := by
  have start := hbl.skip_opens ho
  obtain ⟨c, rest, rfl, -, hot⟩ := ho
  rw [readValue, start]
  split
  next h =>
    rw [(cons.inj h).1] at hot
    exact absurd mem_cons_self hot
  next => rfl

theorem readValue_object (hbl : AllGap gap) (ho : Opens cs) (fuel : Nat) :
    readValue (fuel + 1) ('\x7b' :: (gap ++ cs)) =
      (readMembers fuel [] cs).map fun p => (.obj p.1, p.2) := by
  have start := hbl.skip_opens ho
  obtain ⟨c, rest, rfl, -, hot⟩ := ho
  rw [readValue, start]
  split
  next h =>
    rw [(cons.inj h).1] at hot
    exact absurd (mem_cons_of_mem _ mem_cons_self) hot
  next => rfl

/-! ## Texts of values -/

/-- A reader takes these characters for a value wherever a number can end, and needs no more fuel
than for them. -/
structure ReadAs {α : Type} (read : Nat → List Char → Except Stop (α × List Char))
    (body : List Char) (x : α) : Prop where
  opens : Opens body
  again : ∀ fuel rest, 2 * body.length ≤ fuel → EndsNumber rest →
    read fuel (body ++ rest) = .ok (x, rest)

section ReadAs

variable {body more gap between : List Char} {v : Json}

theorem readAs_of_succ {α : Type} {read : Nat → List Char → Except Stop (α × List Char)} {x : α}
    (ho : Opens body) (succ : ∀ fuel rest, 2 * body.length ≤ fuel + 1 → EndsNumber rest →
      read (fuel + 1) (body ++ rest) = .ok (x, rest)) : ReadAs read body x := by
  refine ⟨ho, fun fuel rest he hen => ?_⟩
  obtain ⟨c, cs, rfl, -⟩ := ho
  cases fuel with
  | zero => simp at he
  | succ fuel => exact succ fuel rest he hen

theorem readAs_number (hn : Numeric body)
    (ha : ∀ rest, EndsNumber rest → readNumber (body ++ rest) = .ok (v, rest)) :
    ReadAs readValue body v := by
  refine readAs_of_succ hn.opens fun fuel rest _ he => ?_
  rw [readValue_numeric (hn.append rest), ha rest he]

theorem readAs_constant (hk : (body, v) ∈ constants) : ReadAs readValue body v := by
  fin_cases hk
  all_goals exact readAs_of_succ ⟨_, _, rfl, by decide, by decide⟩ fun _ _ _ _ => rfl

theorem readAs_string {t : String} (hq : Quotable [] body t) :
    ReadAs readValue ('"' :: (body ++ ['"'])) (.str t) := by
  refine readAs_of_succ ⟨'"', _, rfl, by decide, by decide⟩ fun fuel rest _ _ => ?_
  rw [cons_append, append_assoc, readValue]
  exact congrArg (Except.map _) (hq _ rest)

theorem readAs_array {vs : List Json} (hbl : AllGap gap)
    (hi : ReadAs (readItems · []) body vs) : ReadAs readValue ('[' :: (gap ++ body)) (.arr vs) := by
  refine readAs_of_succ ⟨'[', _, rfl, by decide, by decide⟩ fun fuel rest he hen => ?_
  simp only [length_cons, length_append] at he
  rw [cons_append, append_assoc, readValue_array hbl (hi.opens.append rest)]
  exact congrArg (Except.map _) (hi.again fuel rest (by omega) hen)

theorem readAs_object {ms : Members} (hbl : AllGap gap) (hm : ReadAs (readMembers · []) body ms) :
    ReadAs readValue ('\x7b' :: (gap ++ body)) (.obj ms) := by
  refine readAs_of_succ ⟨'\x7b', _, rfl, by decide, by decide⟩ fun fuel rest he hen => ?_
  simp only [length_cons, length_append] at he
  rw [cons_append, append_assoc, readValue_object hbl (hm.opens.append rest)]
  exact congrArg (Except.map _) (hm.again fuel rest (by omega) hen)

theorem readAs_no_items (hbl : AllGap gap) : ReadAs readValue ('[' :: (gap ++ [']'])) (.arr []) := by
  refine readAs_of_succ ⟨'[', _, rfl, by decide, by decide⟩ fun fuel rest _ _ => ?_
  rw [cons_append, append_assoc, readValue, singleton_append, hbl.skip_cons (by decide)]
  rfl

theorem readAs_no_members (hbl : AllGap gap) :
    ReadAs readValue ('\x7b' :: (gap ++ ['\x7d'])) (.obj []) := by
  refine readAs_of_succ ⟨'\x7b', _, rfl, by decide, by decide⟩ fun fuel rest _ _ => ?_
  rw [cons_append, append_assoc, readValue, singleton_append, hbl.skip_cons (by decide)]
  rfl

section Items

variable (item : ReadAs readValue body v) (hbl : AllGap gap)
include item hbl

theorem readAs_last_item (acc : List Json) :
    ReadAs (readItems · acc) (body ++ (gap ++ [']'])) (v :: acc).reverse := by
  refine readAs_of_succ (item.opens.append _) fun fuel rest he _ => ?_
  simp only [length_append, length_singleton] at he
  have hr := item.again fuel _ (by omega) (hbl.endsNumber (c := ']') (by simp) rest)
  have hc := hbl.skip_cons (c := ']') (by decide) rest
  simp only [append_assoc, singleton_append, readItems, hr, hc]

theorem readAs_next_item {acc vs : List Json} (hsp : AllGap between)
    (ho : ReadAs (readItems · (v :: acc)) more vs) :
    ReadAs (readItems · acc) (body ++ (gap ++ ',' :: (between ++ more))) vs := by
  refine readAs_of_succ (item.opens.append _) fun fuel rest he hen => ?_
  simp only [length_append, length_cons] at he
  have hr := item.again fuel _ (by omega) (hbl.endsNumber (c := ',') (by simp) (between ++ (more ++ rest)))
  have hc := hbl.skip_cons (c := ',') (by decide) (between ++ (more ++ rest))
  simp only [append_assoc, cons_append, readItems, hr, hc, hsp.skip_opens (ho.opens.append rest)]
  exact ho.again fuel rest (by omega) hen

end Items

section Members

variable {name before colon : List Char} {t : String}
  (hna : Quotable [] name t) (hfr : AllGap before) (mark : AllGap colon)
  (hva : ReadAs readValue body v) (hbl : AllGap gap)
include hna hfr mark hva hbl

theorem readAs_last_member (acc : Members) : ReadAs (readMembers · acc)
    ('"' :: (name ++ '"' :: (before ++ ':' :: (colon ++ (body ++ (gap ++ ['\x7d'])))))) (acc.put t v) := by
  refine readAs_of_succ ⟨'"', _, rfl, by decide, by decide⟩ fun fuel rest he _ => ?_
  simp only [length_append, length_cons] at he
  have hr := hva.again fuel _ (by omega) (hbl.endsNumber (c := '\x7d') (by simp) rest)
  simp only [append_assoc, cons_append, nil_append, readMembers, hna _ _,
    hfr.skip_cons (c := ':') (by decide), mark.skip_opens (hva.opens.append _), hr,
    hbl.skip_cons (c := '\x7d') (by decide)]

theorem readAs_next_member {acc ms : Members} (hsp : AllGap between)
    (ho : ReadAs (readMembers · (acc.put t v)) more ms) : ReadAs (readMembers · acc)
    ('"' :: (name ++ '"' :: (before ++ ':' :: (colon ++ (body ++ (gap ++ ',' :: (between ++ more)))))))
    ms := by
  refine readAs_of_succ ⟨'"', _, rfl, by decide, by decide⟩ fun fuel rest he hen => ?_
  simp only [length_append, length_cons] at he
  have hr := hva.again fuel _ (by omega) (hbl.endsNumber (c := ',') (by simp) (between ++ (more ++ rest)))
  simp only [append_assoc, cons_append, readMembers, hna _ _,
    hfr.skip_cons (c := ':') (by decide), mark.skip_opens (hva.opens.append _), hr,
    hbl.skip_cons (c := ',') (by decide), hsp.skip_opens (ho.opens.append rest)]
  exact ho.again fuel rest (by omega) hen

end Members

end ReadAs

/-! ## Styles -/

/-- A style that writes characters as they are, keeps the order of members, and adds only white space
around commas and colons. -/
structure Style.Faithful (style : Style) : Prop where
  characters : style.asciiOnly = false
  order : style.sortMembers = false
  items : ∃ gap, style.itemGap.toList = ',' :: gap ∧ AllGap gap
  names : ∃ gap, style.nameGap.toList = ':' :: gap ∧ AllGap gap
  breaks : ∀ level, AllGap (style.break level)

theorem allGap_blank : AllGap [' '] := forall_mem_singleton.2 rfl

theorem faithful_compact : compact.Faithful where
  characters := rfl
  order := rfl
  items := ⟨[' '], rfl, allGap_blank⟩
  names := ⟨[' '], rfl, allGap_blank⟩
  breaks _ := .nil

theorem mem_of_mem_times {n : Nat} {s : String} (mem : c ∈ (times n s).toList) : c ∈ s.toList := by
  rw [times, String.toList_join, mem_flatMap] at mem
  obtain ⟨t, hr, mem⟩ := mem
  rwa [eq_of_mem_replicate hr] at mem

theorem faithful_pretty : pretty.Faithful where
  characters := rfl
  order := rfl
  items := ⟨[], rfl, .nil⟩
  names := ⟨[' '], rfl, allGap_blank⟩
  breaks lv c mem := by
    rcases mem_cons.1 mem with rfl | mem
    · rfl
    · have hbl : c ∈ [' ', ' '] := mem_of_mem_times mem
      have hs : c = ' ' := by simpa using hbl
      rw [hs]
      rfl

variable {style : Style}

theorem Style.Faithful.exists_bracketed (hf : style.Faithful) (lv : Nat)
    (left right : Char) : ∃ before between behind, AllGap before ∧ AllGap between ∧ AllGap behind ∧
      ∀ ps ≠ [], bracketed style lv left right ps =
        left :: (before ++ (joinChars (',' :: between) ps ++ (behind ++ [right]))) := by
  obtain ⟨gap, hc, hbl⟩ := hf.items
  refine ⟨style.break (lv + 1), gap ++ style.break (lv + 1), style.break lv,
    hf.breaks _, hbl.append (hf.breaks _), hf.breaks _, fun ps some => ?_⟩
  rw [bracketed, if_neg (by simpa using some), hc]
  simp

/-! ## Values -/

/-- Floats are finite, and no two members of an object have one name. -/
inductive Proper : Json → Prop
  | null : Proper .null
  | bool (b : Bool) : Proper (.bool b)
  | int (n : Int) : Proper (.int n)
  | float {x : Float} (finite : isFinite x = true) : Proper (.float x)
  | str (s : String) : Proper (.str s)
  | arr {items : List Json} (each : ∀ v ∈ items, Proper v) : Proper (.arr items)
  | obj {members : List (String × Json)} (different : (members.map Prod.fst).Nodup)
      (each : ∀ e ∈ members, Proper e.2) : Proper (.obj members)

/-- Whole numbers have a text, and no two members of an object have one name. -/
inductive Legible : Json → Prop
  | null : Legible .null
  | bool (b : Bool) : Legible (.bool b)
  | int {n : Int} (short : hasText n = true) : Legible (.int n)
  | float (x : Float) : Legible (.float x)
  | str (s : String) : Legible (.str s)
  | arr {items : List Json} (each : ∀ v ∈ items, Legible v) : Legible (.arr items)
  | obj {members : List (String × Json)} (different : (members.map Prod.fst).Nodup)
      (each : ∀ e ∈ members, Legible e.2) : Legible (.obj members)

theorem itemsWritable_iff {xs : List Json} : itemsWritable xs ↔ ∀ v ∈ xs, v.isWritable := by
  induction xs with
  | nil => simp [itemsWritable]
  | cons v xs ih => simp [itemsWritable, ih]

theorem membersWritable_iff {ms : List (String × Json)} :
    membersWritable ms ↔ ∀ e ∈ ms, e.2.isWritable := by
  induction ms with
  | nil => simp [membersWritable]
  | cons e ms ih =>
    obtain ⟨name, v⟩ := e
    simp [membersWritable, ih]

theorem Proper.legible {v : Json} (hp : Proper v) (hw : v.isWritable) : Legible v := by
  induction hp with
  | null => exact .null
  | bool b => exact .bool b
  | int n => exact .int (by rwa [isWritable] at hw)
  | float => exact .float _
  | str s => exact .str s
  | arr _ ih =>
    rw [isWritable, itemsWritable_iff] at hw
    exact .arr fun v hv => ih v hv (hw v hv)
  | obj hd _ ih =>
    rw [isWritable, membersWritable_iff] at hw
    exact .obj hd fun e he => ih e he (hw e he)

/-! ## Floats -/

theorem floatText_eq {x : Float} (hf : isFinite x) : floatText x = finiteText x := by
  rw [floatText, isNaN_eq_false hf, if_neg Bool.false_ne_true, if_pos hf]

theorem isFinite_or_word : isFinite x ∨
    x = 0.0 / 0.0 ∧ floatText x = "NaN" ∨ x = 1.0 / 0.0 ∧ floatText x = "Infinity" ∨
      x = -1.0 / 0.0 ∧ floatText x = "-Infinity" := by
  by_cases hf : isFinite x
  · exact .inl hf
  rw [not_eq_true] at hf
  refine .inr ?_
  cases hn : x.isNaN with
  | true =>
    have none : x = 0.0 / 0.0 := by
      rw [Float.isNaN_eq_decide_eq_nan, decide_eq_true_eq] at hn
      exact hn.trans (by decide)
    exact .inl ⟨none, by rw [none]; decide⟩
  | false =>
    have hi := eq_infinity hf hn
    cases hs : signBit x with
    | true =>
      rw [hs] at hi
      exact .inr (.inr ⟨hi, by rw [hi]; decide⟩)
    | false =>
      rw [hs] at hi
      exact .inr (.inl ⟨hi, by rw [hi]; decide⟩)

theorem readAs_float : ReadAs readValue (floatText x).toList (.float x) := by
  rcases isFinite_or_word x with hf | ⟨hs, ht⟩ | ⟨hs, ht⟩ | ⟨hs, ht⟩
  · rw [floatText_eq hf]
    exact readAs_number (numeric_finiteText hf) fun _ he => readNumber_finiteText hf he
  all_goals
    rw [ht, hs]
    exact readAs_constant (by simp [constants])

/-! ## Reading values back -/

theorem joinChars_cons_cons (sep p next : List Char) (more : List (List Char)) :
    joinChars sep (p :: next :: more) = p ++ (sep ++ joinChars sep (next :: more)) := by
  rw [joinChars, append_assoc]
  exact cons_ne_nil _ _

section Parts

variable {between behind : List Char} (hsp : AllGap between) (hbl : AllGap behind) {lv : Nat}
include hsp hbl

theorem readAs_items {xs : List Json} (hn : xs ≠ [])
    (he : ∀ v ∈ xs, ReadAs readValue (chars style lv v) v) (acc : List Json) :
    ReadAs (readItems · acc) (joinChars (',' :: between) (itemChars style lv xs) ++ (behind ++ [']']))
      (acc.reverse ++ xs) := by
  induction xs generalizing acc with
  | nil => exact absurd rfl hn
  | cons v xs ih =>
    obtain ⟨here, he⟩ := forall_mem_cons.1 he
    cases xs with
    | nil => simpa [itemChars, joinChars] using readAs_last_item here hbl acc
    | cons w xs =>
      have ho := ih (cons_ne_nil _ _) he (v :: acc)
      simpa [itemChars, joinChars_cons_cons] using readAs_next_item here .nil hsp ho

theorem readAs_members (hf : style.Faithful) {ms : List (String × Json)}
    (hn : ms ≠ []) (he : ∀ e ∈ ms, ReadAs readValue (chars style lv e.2) e.2)
    (acc : Members) (hd : ((acc ++ ms).map Prod.fst).Nodup) :
    ReadAs (readMembers · acc) (joinChars (',' :: between) ((memberChars style lv ms).map Prod.snd) ++
        (behind ++ ['\x7d'])) (acc ++ ms) := by
  obtain ⟨colon, hna, mark⟩ := hf.names
  induction ms generalizing acc with
  | nil => exact absurd rfl hn
  | cons e ms ih =>
    obtain ⟨name, v⟩ := e
    obtain ⟨here, he⟩ := forall_mem_cons.1 he
    have hq : Quotable [] (name.toList.flatMap (escapedChar false)) name := by
      simpa using quotable_escaped [] name.toList
    have put : acc.put name v = acc ++ [(name, v)] := by
      refine Entries.put_of_not_mem fun hp => ?_
      rw [map_append] at hd
      exact disjoint_of_nodup_append hd hp mem_cons_self
    cases ms with
    | nil =>
      have hl := readAs_last_member hq .nil mark here hbl acc
      simpa [memberChars, joinChars, stringChars, hf.characters, hna, put] using hl
    | cons f ms =>
      have ho := ih (cons_ne_nil _ _) he (acc ++ [(name, v)]) (by simpa using hd)
      rw [← put] at ho
      have next := readAs_next_member hq .nil mark here .nil hsp ho
      simpa [memberChars, joinChars_cons_cons, stringChars, hf.characters, hna, put] using next

end Parts

variable {v : Json}

/-- The text of a value is read back as the value. -/
theorem Legible.readAs (hl : Legible v) (hf : style.Faithful) (lv : Nat) :
    ReadAs readValue (chars style lv v) v := by
  induction hl generalizing lv with
  | null =>
    rw [chars]
    exact readAs_constant (by simp [constants])
  | bool b =>
    cases b <;> rw [chars] <;> exact readAs_constant (by simp [constants])
  | @int n hs =>
    rw [chars]
    exact readAs_number (numeric_ofInt n) fun _ hen => readNumber_ofInt hs hen
  | float x =>
    rw [chars]
    exact readAs_float x
  | str s =>
    rw [chars, hf.characters]
    simpa [stringChars] using readAs_string (quotable_escaped [] s.toList)
  | @arr xs _ ih =>
    rw [chars]
    cases xs with
    | nil => exact readAs_no_items .nil
    | cons v xs =>
      obtain ⟨before, between, behind, hbl, hsp, hc, ht⟩ := hf.exists_bracketed lv '[' ']'
      rw [ht _ (by rw [itemChars]; exact cons_ne_nil _ _)]
      exact readAs_array hbl (readAs_items hsp hc (cons_ne_nil _ _) (fun v hv => ih v hv _) [])
  | @obj ms hd _ ih =>
    rw [chars, hf.order]
    cases ms with
    | nil => exact readAs_no_members .nil
    | cons e ms =>
      obtain ⟨before, between, behind, hbl, hsp, hc, ht⟩ := hf.exists_bracketed lv '\x7b' '\x7d'
      have hsh := ht ((memberChars style (lv + 1) (e :: ms)).map Prod.snd)
        (by rw [memberChars]; exact cons_ne_nil _ _)
      exact hsh ▸ readAs_object hbl
        (readAs_members hsp hc hf (cons_ne_nil _ _) (fun e he => ih e he _) [] hd)

theorem read_of_readAs {s : String} (ht : ReadAs readValue s.toList v) : read s = .ok v := by
  have hb := ht.again (readingFuel s.toList) [] (by unfold readingFuel; omega) (fun c hc => by cases hc)
  rw [append_nil] at hb
  have start : s.toList.head? ≠ some (Char.ofNat 0xFEFF) := by
    obtain ⟨c, rest, ht, -, ho⟩ := ht.opens
    rw [ht]
    rintro ⟨⟩
    exact ho (by simp)
  unfold read
  rw [readChars, if_neg (by simpa using start), ht.opens.skip_eq, readFront, hb]
  rfl

theorem read_write (hl : Legible v) (hf : style.Faithful) : read (v.write style) = .ok v :=
  read_of_readAs (by rw [write, String.toList_ofList]; exact hl.readAs hf 0)

theorem read_encode (hp : Proper v) (hw : v.isWritable) : read (encode v) = .ok v :=
  read_write (hp.legible hw) faithful_compact

end Appwright.Json
