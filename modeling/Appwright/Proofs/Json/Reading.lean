import Appwright.Proofs.Json.RoundTrip
import Appwright.Proofs.Run
import Appwright.Proofs.Text

/-!
# What is read

Whatever document it is read from, a value has whole numbers of few digits and objects with different
names: of two members with one name the reader keeps one. So it can be written and read again
(`legible_of_read`). The reader takes a value from the front of a text, and takes the same characters
for the same value if something else follows them (`reads`). So a document is a text of its value
with white space around it (`exists_readAs_of_read`). A string is never the text that it is read
from, which has quotes around it (`ne_of_read_str`).
-/

namespace Appwright.Json

open List Spelling Text Entries

open Sexpr (signChars)

/-! ## Legible parts -/

variable {ms : Members} {v : Json} {s : Spelling}

theorem Legible.put (hl : Legible (.obj ms)) (name : String)
    (hv : Legible v) : Legible (.obj (ms.put name v)) := by
  cases hl with
  | obj hd hea =>
    refine .obj (nodup_names_put hd name v) fun e he => ?_
    rcases mem_of_mem_put he with rfl | old
    · exact hv
    · exact hea e old

theorem Legible.get? (hl : Legible (.obj ms)) {name : String}
    (hf : ms.get? name = some v) : Legible v := by
  cases hl with
  | obj _ he => exact he _ (mem_of_get? hf)

theorem Legible.items {items : List Json} (hl : Legible (.arr items)) : ∀ v ∈ items, Legible v := by
  cases hl with
  | arr he => exact he

/-! ## Numbers -/

theorem decimalOf_lt (ds : List Char) (hd : ∀ d ∈ ds, d.isDigit) :
    decimalOf ds < 10 ^ ds.length := by
  induction ds with
  | nil => decide
  | cons d ds ih =>
    obtain ⟨hdi, hd⟩ := forall_mem_cons.1 hd
    have rest := ih hd
    have hv : decimalOf [d] ≤ 9 := by
      have hb : 48 ≤ d.toNat ∧ d.toNat ≤ 57 := Char.isDigit_iff_toNat.1 hdi
      change 10 * 0 + (d.toNat - 48) ≤ 9
      omega
    calc decimalOf (d :: ds)
        = 10 ^ ds.length * decimalOf [d] + decimalOf ds := decimalOf_append [d] ds
      _ < 10 ^ ds.length * 9 + 10 ^ ds.length :=
        Nat.add_lt_add_of_le_of_lt (Nat.mul_le_mul_left _ hv) rest
      _ = 10 ^ (ds.length + 1) := (Nat.mul_succ _ 9).symm

theorem decimalOf_lt_pow {ds : List Char} (hd : ∀ d ∈ ds, d.isDigit) {k : Nat}
    (few : ds.length ≤ k) : decimalOf ds < Nat.pow 10 k :=
  (decimalOf_lt ds hd).trans_le (Nat.pow_le_pow_right (by decide) few)

theorem natAbs_signed (neg : Bool) (n : Nat) : (if neg then -(n : Int) else n).natAbs = n := by
  cases neg with
  | true => exact Int.natAbs_neg _
  | false => rfl

theorem Spelling.Sound.legible (hs : s.Sound) (neg : Bool)
    (hsh : s.fraction = none → s.exponent = none → s.whole.length ≤ Decimal.maxDigits) :
    Legible (s.json neg) := by
  unfold json
  split
  next hb =>
    obtain ⟨hf, he⟩ : s.fraction = none ∧ s.exponent = none := by simpa using hb
    refine .int (decide_eq_true ?_)
    rw [natAbs_signed]
    exact decimalOf_lt_pow hs.whole.2 (hsh hf he)
  next => exact .float _

theorem Spelling.json_cases (s : Spelling) (neg : Bool) :
    (∃ n, s.json neg = .int n) ∨ ∃ x, s.json neg = .float x := by
  unfold json
  split
  · exact .inl ⟨_, rfl⟩
  · exact .inr ⟨_, rfl⟩

theorem Spelling.numeric (hs : s.Sound) (neg : Bool) :
    Numeric (signChars neg ++ s.chars) := by
  obtain ⟨d, ds, hw⟩ := exists_cons_of_ne_nil hs.whole.1
  refine ⟨neg, d, ds ++ (s.fractionChars ++ s.exponentChars), ?_, ?_⟩
  · exact hs.whole.2 d (by simp [hw])
  · rw [chars, hw]
    rfl

/-! ## Strings -/

section Strings

variable {start acc cs rest : List Char} {t : String}

theorem length_of_readString (hr : readString start acc cs = .ok (t, rest)) :
    t.toList.length + rest.length < acc.length + cs.length := by
  fun_induction readString start acc cs with
  | case1 | case3 | case4 | case5 | case9 | case12 | case13 | case14 => cases hr
  | case2 =>
    cases hr
    simp
  | case6 | case7 | case8 | case10 | case11 | case15 =>
    rename_i ih
    have hs := ih hr
    simp only [length_cons] at hs ⊢
    omega

theorem exists_unit_of_readString (hr : readString start acc ('\\' :: 'u' :: cs) = .ok (t, rest)) :
    ∃ a b c d last behind, cs = a :: b :: c :: d :: last :: behind := by
  rcases cs with _ | ⟨a, _ | ⟨b, _ | ⟨c, _ | ⟨d, _ | ⟨last, behind⟩⟩⟩⟩⟩
  case cons.cons.cons.cons.cons => exact ⟨a, b, c, d, last, behind, rfl⟩
  all_goals simp [readString, simpleEscape?] at hr

theorem Quotable.exists_unit {body behind : List Char} {e f g h last : Char} (hq : Quotable acc body t)
    (hf : body ++ '"' :: rest = '\\' :: 'u' :: e :: f :: g :: h :: last :: behind) :
    ∃ tail, body = '\\' :: 'u' :: e :: f :: g :: h :: tail := by
  rcases body with _ | ⟨x, _ | ⟨y, body⟩⟩
  · simp at hf
  · simp at hf
  · simp only [cons_append, cons.injEq] at hf
    obtain ⟨rfl, rfl, hf⟩ := hf
    obtain ⟨_, _, _, _, _, _, hfu⟩ := exists_unit_of_readString (hq [] [])
    rcases body with _ | ⟨_, _ | ⟨_, _ | ⟨_, _ | ⟨_, tail⟩⟩⟩⟩
    case cons.cons.cons.cons =>
      simp only [cons_append, cons.injEq] at hf
      obtain ⟨rfl, rfl, rfl, rfl, -⟩ := hf
      exact ⟨tail, rfl⟩
    all_goals simp at hfu

/-- Whether a unit is the first of two is seen from the characters of the string. -/
theorem Quotable.unit {body : List Char} {a b c d : Char} {n : Nat}
    (hv : unitValue? a b c d = some n) (hq : Quotable (unitChar n :: acc) body t)
    (hs : ∀ e f g h tail, body = '\\' :: 'u' :: e :: f :: g :: h :: tail →
      0xD800 ≤ n ∧ n < 0xDC00 → ∃ m, unitValue? e f g h = some m ∧ ¬ (0xDC00 ≤ m ∧ m < 0xE000)) :
    Quotable acc ('\\' :: 'u' :: a :: b :: c :: d :: body) t := by
  intro start rest
  simp only [cons_append]
  rw [readString_unit hv (by simp)]
  · exact hq start rest
  · intro e f g h last behind hf high
    obtain ⟨tail, hsa⟩ := hq.exists_unit hf
    exact hs e f g h tail hsa high

theorem exists_cons_append_quote (body rest : List Char) :
    ∃ next tail, body ++ '"' :: rest = next :: tail :=
  exists_cons_of_ne_nil (append_ne_nil_of_right_ne_nil body (cons_ne_nil '"' rest))

/-- The string that is read depends only on what stands before the quote that ends it. -/
theorem exists_quotable (hr : readString start acc cs = .ok (t, rest)) :
    ∃ body, cs = body ++ '"' :: rest ∧ Quotable acc body t := by
  fun_induction readString start acc cs with
  | case1 | case3 | case4 | case5 | case9 | case12 | case13 | case14 => cases hr
  | case2 acc behind =>
    cases hr
    exact ⟨[], rfl, fun _ _ => by rw [nil_append, readString]⟩
  | case6 acc a b c d e f g h last behind high hv first low hv' hs code ih =>
    obtain ⟨body, hsa, hq⟩ := ih hr
    refine ⟨'\\' :: 'u' :: a :: b :: c :: d :: '\\' :: 'u' :: e :: f :: g :: h :: body,
      by rw [hsa]; rfl, fun start rest => ?_⟩
    obtain ⟨next, tail, hf⟩ := exists_cons_append_quote body rest
    simp only [cons_append]
    rw [hf, readString.eq_4, hv]
    dsimp only
    rw [if_pos first, hv']
    dsimp only
    rw [if_pos hs, ← hf]
    exact hq start rest
  | case7 acc a b c d e f g h last behind n hv first m hv' ho ih =>
    obtain ⟨body, hsa, hq⟩ := ih hr
    refine ⟨'\\' :: 'u' :: a :: b :: c :: d :: body, by rw [hsa]; rfl, ?_⟩
    refine hq.unit hv fun e' f' g' h' tail hf _ => ?_
    simp only [hf, cons_append, cons.injEq] at hsa
    obtain ⟨-, -, rfl, rfl, rfl, rfl, -⟩ := hsa
    exact ⟨m, hv', ho⟩
  | case8 acc a b c d e f g h last behind n hv ho ih =>
    obtain ⟨body, hsa, hq⟩ := ih hr
    refine ⟨'\\' :: 'u' :: a :: b :: c :: d :: body, by rw [hsa]; rfl, ?_⟩
    exact hq.unit hv fun _ _ _ _ _ _ high => absurd high ho
  | case10 acc a b c d last behind ha n hv ih =>
    obtain ⟨body, hsa, hq⟩ := ih hr
    refine ⟨'\\' :: 'u' :: a :: b :: c :: d :: body, by rw [hsa]; rfl, ?_⟩
    refine hq.unit hv fun e f g h tail hf _ => ?_
    obtain ⟨next, tail', hfu⟩ := exists_cons_append_quote tail rest
    simp only [hf, cons_append, cons.injEq, hfu] at hsa
    exact (ha e f g h next tail' hsa.1 hsa.2).elim
  | case11 acc c behind _ _ d hl ih =>
    obtain ⟨body, rfl, hq⟩ := ih hr
    refine ⟨'\\' :: c :: body, rfl, fun start rest => ?_⟩
    simp only [cons_append]
    rw [readString_simple hl]
    exact hq start rest
  | case15 acc c behind hqu ha _ _ hsl high ih =>
    obtain ⟨body, rfl, hq⟩ := ih hr
    have ho : c ≠ '\\' := by
      intro hsa
      obtain ⟨next, tail, hf⟩ := exists_cons_append_quote body rest
      exact hsl next tail hsa hf
    refine ⟨c :: body, rfl, fun start rest => ?_⟩
    rw [cons_append, readString_plain hqu ho high]
    exact hq start rest

end Strings

/-! ## Values -/

section Values

variable {fuel : Nat} {cs rest : List Char} {v : Json}

/-- What stands at the front of a text that a value is read from. -/
inductive Front (fuel : Nat) (cs rest : List Char) : Json → Prop
  | string {behind : List Char} {t : String} (text : cs = '"' :: behind)
      (read : readString cs [] behind = .ok (t, rest)) : Front fuel cs rest (.str t)
  | noMembers {behind : List Char} (text : cs = '\x7b' :: behind)
      (close : skipGap behind = '\x7d' :: rest) : Front fuel cs rest (.obj [])
  | members {behind : List Char} {ms : Members} (text : cs = '\x7b' :: behind)
      (read : readMembers fuel [] (skipGap behind) = .ok (ms, rest)) : Front fuel cs rest (.obj ms)
  | noItems {behind : List Char} (text : cs = '[' :: behind)
      (close : skipGap behind = ']' :: rest) : Front fuel cs rest (.arr [])
  | items {behind : List Char} {vs : List Json} (text : cs = '[' :: behind)
      (read : readItems fuel [] (skipGap behind) = .ok (vs, rest)) : Front fuel cs rest (.arr vs)
  | constant {word : List Char} {v : Json} (known : (word, v) ∈ constants)
      (text : cs = word ++ rest) : Front fuel cs rest v
  | number {negative : Bool} {s : Spelling} {v : Json} (sound : s.Sound)
      (value : v = s.json negative) (text : cs = signChars negative ++ (s.chars ++ rest))
      (short : s.fraction = none → s.exponent = none → s.whole.length ≤ Decimal.maxDigits) :
      Front fuel cs rest v

theorem front_of_readValue (h : readValue (fuel + 1) cs = .ok (v, rest)) : Front fuel cs rest v := by
  unfold readValue at h
  split at h
  · obtain ⟨⟨t, behind⟩, hr, ⟨⟩⟩ := except_map_eq_ok h
    exact .string rfl hr
  · split at h
    next hc =>
      cases h
      exact .noMembers rfl hc
    next =>
      obtain ⟨⟨ms, behind⟩, hr, ⟨⟩⟩ := except_map_eq_ok h
      exact .members rfl hr
  · split at h
    next hc =>
      cases h
      exact .noItems rfl hc
    next =>
      obtain ⟨⟨vs, behind⟩, hr, ⟨⟩⟩ := except_map_eq_ok h
      exact .items rfl hr
  · split at h
    next word =>
      cases h
      obtain ⟨⟨word, v⟩, hk, hf⟩ := exists_of_findSome?_eq_some word
      obtain ⟨behind, ha, hsa⟩ := Option.map_eq_some_iff.1 hf
      cases hsa
      exact .constant hk (eq_append_of_after? ha)
    next =>
      obtain ⟨neg, s, hs, hv, ht, hsh⟩ := exists_spelling_of_readNumber h
      exact .number hs hv ht hsh

theorem legible_of_mem_constants {word : List Char} (hk : (word, v) ∈ constants) : Legible v := by
  fin_cases hk
  · exact .null
  · exact .bool true
  · exact .bool false
  · exact .float _
  · exact .float _
  · exact .float _

/-- A reader takes a text of a value from the front. -/
def Takes {α : Type} (read : Nat → List Char → Except Stop (α × List Char)) (cs : List Char) (x : α)
    (rest : List Char) : Prop :=
  ∃ body, cs = body ++ rest ∧ ReadAs read body x

theorem exists_gap (cs : List Char) : ∃ gap, AllGap gap ∧ cs = gap ++ skipGap cs :=
  ⟨cs.takeWhile isGap, fun _ hc => mem_takeWhile_imp hc, takeWhile_append_dropWhile.symm⟩

theorem exists_gap_of_skipGap {behind : List Char} (h : skipGap cs = behind) :
    ∃ gap, AllGap gap ∧ cs = gap ++ behind :=
  h ▸ exists_gap cs

theorem Legible.none : Legible (.obj []) := .obj nodup_nil nofun

/-- What is read with some fuel is legible, and it is read from a text of its own. That of an
object's members ends with a brace. -/
structure Reads (fuel : Nat) : Prop where
  value : ∀ {cs v rest}, readValue fuel cs = .ok (v, rest) → Legible v ∧ Takes readValue cs v rest
  items : ∀ {acc cs vs rest}, (∀ v ∈ acc, Legible v) → readItems fuel acc cs = .ok (vs, rest) →
    (∀ v ∈ vs, Legible v) ∧ Takes (readItems · acc) cs vs rest
  members : ∀ {acc cs ms rest}, Legible (.obj acc) → readMembers fuel acc cs = .ok (ms, rest) →
    Legible (.obj ms) ∧ ∃ body, cs = body ++ '\x7d' :: rest ∧
      ReadAs (readMembers · acc) (body ++ ['\x7d']) ms

theorem reads_zero : Reads 0 where
  value h := by cases h
  items _ h := by cases h
  members _ h := by cases h

namespace Reads

variable (hre : Reads fuel)
include hre

theorem value_succ (h : readValue (fuel + 1) cs = .ok (v, rest)) :
    Legible v ∧ Takes readValue cs v rest := by
  cases front_of_readValue h with
  | @string behind t ht hr =>
    obtain ⟨body, rfl, hq⟩ := exists_quotable hr
    exact ⟨.str t, _, by simpa using ht, readAs_string hq⟩
  | noMembers ht hc =>
    obtain ⟨gap, hb, rfl⟩ := exists_gap_of_skipGap hc
    exact ⟨.none, _, by simpa using ht, readAs_no_members hb⟩
  | @members behind ms ht hr =>
    obtain ⟨hl, body, hc, ha⟩ := hre.members .none hr
    obtain ⟨gap, hb, rfl⟩ := exists_gap_of_skipGap hc
    exact ⟨hl, _, by simpa using ht, readAs_object hb ha⟩
  | noItems ht hc =>
    obtain ⟨gap, hb, rfl⟩ := exists_gap_of_skipGap hc
    have he : Legible (.arr []) := .arr nofun
    exact ⟨he, _, by simpa using ht, readAs_no_items hb⟩
  | @items behind vs ht hr =>
    obtain ⟨hl, body, hc, ha⟩ := hre.items (forall_mem_nil _) hr
    obtain ⟨gap, hb, rfl⟩ := exists_gap_of_skipGap hc
    exact ⟨.arr hl, _, by simpa using ht, readAs_array hb ha⟩
  | constant hk ht => exact ⟨legible_of_mem_constants hk, _, ht, readAs_constant hk⟩
  | @number neg s _ hs hv ht hsh =>
    subst hv
    refine ⟨hs.legible neg hsh, signChars neg ++ s.chars, by simpa using ht, ?_⟩
    refine readAs_number (numeric hs neg) fun rest hen => ?_
    rw [append_assoc]
    exact readNumber_chars hs hen neg hsh

theorem items_succ {acc vs : List Json} (hbe : ∀ v ∈ acc, Legible v)
    (h : readItems (fuel + 1) acc cs = .ok (vs, rest)) :
    (∀ v ∈ vs, Legible v) ∧ Takes (readItems · acc) cs vs rest := by
  unfold readItems at h
  split at h
  · cases h
  next v behind hr =>
    obtain ⟨hl, body, rfl, hi⟩ := hre.value hr
    have all : ∀ w ∈ v :: acc, Legible w := forall_mem_cons.2 ⟨hl, hbe⟩
    split at h
    next hc =>
      obtain ⟨gap, hb, rfl⟩ := exists_gap_of_skipGap hc
      cases h
      refine ⟨fun w mem => all w (mem_reverse.1 mem), _, ?_, readAs_last_item hi hb acc⟩
      simp
    next more hco =>
      obtain ⟨gap, hb, rfl⟩ := exists_gap_of_skipGap hco
      obtain ⟨hl, others, next, ha⟩ := hre.items all h
      obtain ⟨between, hs, rfl⟩ := exists_gap_of_skipGap next
      refine ⟨hl, _, ?_, readAs_next_item hi hb hs ha⟩
      simp
    · cases h

theorem members_succ {acc ms : Members} (hbe : Legible (.obj acc))
    (h : readMembers (fuel + 1) acc cs = .ok (ms, rest)) : Legible (.obj ms) ∧
      ∃ body, cs = body ++ '\x7d' :: rest ∧ ReadAs (readMembers · acc) (body ++ ['\x7d']) ms := by
  unfold readMembers at h
  split at h
  · split at h
    · cases h
    next name _ hr =>
      obtain ⟨quoted, rfl, hn⟩ := exists_quotable hr
      split at h
      next hma =>
        obtain ⟨pre, hc, rfl⟩ := exists_gap_of_skipGap hma
        split at h
        · cases h
        next v _ hr =>
          obtain ⟨hl, body, ht, hv⟩ := hre.value hr
          obtain ⟨colon, ha, rfl⟩ := exists_gap_of_skipGap ht
          have hm := hbe.put name hl
          split at h
          next hcl =>
            obtain ⟨gap, hb, rfl⟩ := exists_gap_of_skipGap hcl
            cases h
            have hla := readAs_last_member hn hc ha hv hb acc
            exact ⟨hm, '"' :: (quoted ++ '"' :: (pre ++ ':' :: (colon ++ (body ++ gap)))),
              by simp, by simpa using hla⟩
          next hco =>
            obtain ⟨gap, hb, rfl⟩ := exists_gap_of_skipGap hco
            obtain ⟨hl, others, next, hag⟩ := hre.members hm h
            obtain ⟨between, hs, rfl⟩ := exists_gap_of_skipGap next
            have next := readAs_next_member hn hc ha hv hb hs hag
            exact ⟨hl, '"' :: (quoted ++ '"' :: (pre ++ ':' :: (colon ++
              (body ++ (gap ++ ',' :: (between ++ others)))))), by simp, by simpa using next⟩
          · cases h
      · cases h
  · cases h

end Reads

/-- What a value is read from does not depend on what follows it. -/
theorem hre (fuel : Nat) : Reads fuel := by
  induction fuel with
  | zero => exact reads_zero
  | succ fuel ih => exact ⟨ih.value_succ, ih.items_succ, ih.members_succ⟩

end Values

/-! ## Documents -/

variable {s : String}

theorem exists_readValue_of_read (h : read s = .ok v) :
    ∃ fuel rest, readValue (fuel + 1) (skipGap s.toList) = .ok (v, rest) ∧ AllGap rest := by
  have hc := mapError_eq_ok h
  unfold readChars at hc
  split at hc
  · cases hc
  · split at hc
    · cases hc
    next w rest hf =>
      split at hc
      next he =>
        cases hc
        refine ⟨_, rest, hf, ?_⟩
        obtain ⟨gap, hb, rfl⟩ := exists_gap_of_skipGap he
        simpa using hb
      · cases hc

theorem legible_of_read (h : read s = .ok v) : Legible v := by
  obtain ⟨fuel, rest, hf, -⟩ := exists_readValue_of_read h
  exact ((hre _).value hf).1

theorem exists_readAs_of_read (h : read s = .ok v) :
    ∃ pre body behind, s.toList = pre ++ (body ++ behind) ∧ AllGap pre ∧ AllGap behind ∧
      ReadAs readValue body v := by
  obtain ⟨fuel, rest, hf, hb⟩ := exists_readValue_of_read h
  obtain ⟨-, body, ht, ha⟩ := (hre _).value hf
  obtain ⟨gap, hc, hs⟩ := exists_gap_of_skipGap ht
  exact ⟨gap, body, rest, hs, hc, hb, ha⟩

theorem ReadAs.braces {body : List Char} (ht : ReadAs readValue body (.obj ms)) :
    ∃ mid, body = '\x7b' :: (mid ++ ['\x7d']) := by
  have hr := ht.again (2 * body.length + 1) [] (by omega) (fun c hc => by cases hc)
  rw [append_nil] at hr
  cases front_of_readValue hr with
  | noMembers ht hcl =>
    obtain ⟨gap, -, rfl⟩ := exists_gap_of_skipGap hcl
    exact ⟨gap, ht⟩
  | members ht hr =>
    obtain ⟨-, mid, hcl, -⟩ := (hre _).members .none hr
    obtain ⟨gap, -, rfl⟩ := exists_gap_of_skipGap hcl
    exact ⟨gap ++ mid, by simpa using ht⟩
  | constant hk => simp [constants] at hk
  | @number neg s _ _ hv =>
    rcases s.json_cases neg with ⟨_, h⟩ | ⟨_, h⟩ <;> simp [h] at hv

theorem ne_of_read_str {t : String} (h : read s = .ok (.str t)) : t ≠ s := by
  obtain ⟨fuel, rest, hf, -⟩ := exists_readValue_of_read h
  have hs : t.toList.length < (skipGap s.toList).length := by
    cases front_of_readValue hf with
    | string text read =>
      have hs := length_of_readString read
      rw [text]
      simp only [length_nil, length_cons] at hs ⊢
      omega
    | constant hk => simp [constants] at hk
    | @number neg s _ _ hv =>
      rcases s.json_cases neg with ⟨_, h⟩ | ⟨_, h⟩ <;> simp [h] at hv
  have tail := (dropWhile_sublist isGap (l := s.toList)).length_le
  rintro rfl
  exact absurd (hs.trans_le tail) (Nat.lt_irrefl _)

end Appwright.Json
