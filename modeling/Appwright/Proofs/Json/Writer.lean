import Appwright.Json.Writer
import Mathlib.Data.List.Infix

/-!
# Reading the start of a JSON text

On one line and with all characters as they are, a text that begins with a string says which string
it is and where it ends (`stringChars_append_inj`), and only strings begin with a quote
(`exists_head_ne_quote`). So two JSON texts can be compared from left to right.
-/

namespace Appwright.Json

open List String Nat Text

/-! ## Strings -/

def specials : List Char :=
  '"' :: '\\' :: (range 32).map Char.ofNat

variable {c : Char} {cs ds : List Char}

theorem mem_specials_of_lt (low : c.toNat < 32) : c ∈ specials := by
  refine mem_cons_of_mem _ (mem_cons_of_mem _ ?_)
  exact mem_map.2 ⟨c.toNat, mem_range.2 low, Char.ofNat_toNat c⟩

theorem escapedChar_of_not_mem_specials (hp : c ∉ specials) : escapedChar false c = [c] := by
  have high : ¬ c.toNat < 32 := fun low => hp (mem_specials_of_lt low)
  have hq : c ≠ '"' := fun h => hp (h ▸ mem_cons_self)
  have hs : c ≠ '\\' := fun h => hp (h ▸ mem_cons_of_mem _ mem_cons_self)
  have ne_of_low {d : Char} (low : d.toNat < 32) : c ≠ d := fun h => high (h ▸ low)
  have hf : c ≠ '\n' := ne_of_low (by decide)
  have hb : c ≠ '\r' := ne_of_low (by decide)
  have tab : c ≠ '\t' := ne_of_low (by decide)
  have hpa : c.toNat ≠ 12 := by omega
  have he : c.toNat ≠ 8 := by omega
  simp [escapedChar, hq, hs, hf, hb, tab, hpa, he, high]

theorem escapedChar_specials : ∀ c ∈ specials, (escapedChar false c).head? = some '\\' ∧
    ∀ d ∈ specials, escapedChar false c <+: escapedChar false d → c = d := by
  -- Run over the list, not over all characters.
  have hc : specials.all (fun c => decide ((escapedChar false c).head? = some '\\' ∧
      specials.all (fun d => decide (escapedChar false c <+: escapedChar false d → c = d)))) := by
    decide +kernel
  simpa only [all_eq_true, decide_eq_true_eq] using hc

theorem exists_escapedChar_eq (c : Char) : c ∉ specials ∧ escapedChar false c = [c] ∨
      c ∈ specials ∧ ∃ rest, escapedChar false c = '\\' :: rest := by
  by_cases hc : c ∈ specials
  · exact .inr ⟨hc, head?_eq_some_iff.1 (escapedChar_specials c hc).1⟩
  · exact .inl ⟨hc, escapedChar_of_not_mem_specials hc⟩

theorem escapedChar_append_inj {d : Char}
    (h : escapedChar false c ++ cs = escapedChar false d ++ ds) : c = d ∧ cs = ds := by
  have hs : '\\' ∈ specials := mem_cons_of_mem _ mem_cons_self
  rcases exists_escapedChar_eq c with ⟨hc, hi⟩ | ⟨hc, rest, he⟩ <;>
    rcases exists_escapedChar_eq d with ⟨hd, hi'⟩ | ⟨hd, rest', he'⟩
  · rw [hi, hi'] at h
    exact cons.inj h
  · rw [hi, he'] at h
    exact absurd ((cons.inj h).1 ▸ hs) hc
  · rw [he, hi'] at h
    exact absurd ((cons.inj h).1 ▸ hs) hd
  · have hsa : c = d := by
      rcases prefix_or_prefix_of_prefix (prefix_append _ cs) (h ▸ prefix_append _ ds) with p | p
      · exact (escapedChar_specials c hc).2 d hd p
      · exact ((escapedChar_specials d hd).2 c hc p).symm
    subst hsa
    exact ⟨rfl, append_cancel_left h⟩

theorem escapedChar_append_ne_quote (c : Char) (cs ds : List Char) :
    escapedChar false c ++ cs ≠ '"' :: ds := by
  intro h
  rcases exists_escapedChar_eq c with ⟨hc, hi⟩ | ⟨hc, rest, he⟩
  · rw [hi] at h
    exact hc ((cons.inj h).1 ▸ mem_cons_self)
  · rw [he] at h
    exact absurd (cons.inj h).1 (by decide)

theorem flatMap_escapedChar_append_inj {s t : List Char}
    (h : s.flatMap (escapedChar false) ++ '"' :: cs = t.flatMap (escapedChar false) ++ '"' :: ds) :
    s = t ∧ cs = ds := by
  induction s generalizing t with
  | nil =>
    cases t with
    | nil => exact ⟨rfl, (cons.inj h).2⟩
    | cons d t =>
      rw [List.flatMap_cons, List.append_assoc] at h
      exact absurd h.symm (escapedChar_append_ne_quote d _ _)
  | cons c s ih =>
    rw [List.flatMap_cons, List.append_assoc] at h
    cases t with
    | nil => exact absurd h (escapedChar_append_ne_quote c _ _)
    | cons d t =>
      rw [List.flatMap_cons, List.append_assoc] at h
      obtain ⟨rfl, hr⟩ := escapedChar_append_inj h
      obtain ⟨rfl, ht⟩ := ih hr
      exact ⟨rfl, ht⟩

variable {s t : String} (n : Nat)

theorem stringChars_append_inj
    (h : stringChars false s ++ cs = stringChars false t ++ ds) : s = t ∧ cs = ds := by
  have hi : s.toList.flatMap (escapedChar false) ++ '"' :: cs =
      t.toList.flatMap (escapedChar false) ++ '"' :: ds := by
    simpa [stringChars] using h
  obtain ⟨hc, hr⟩ := flatMap_escapedChar_append_inj hi
  exact ⟨toList_inj.1 hc, hr⟩

/-! ## Values that are no strings -/

def Unquoted (s : String) : Prop :=
  s.toList ≠ [] ∧ '"' ∉ s.toList

theorem Unquoted.append (hs : Unquoted s) (ht : '"' ∉ t.toList) : Unquoted (s ++ t) := by
  refine ⟨?_, ?_⟩
  · rw [toList_append]
    exact append_ne_nil_of_left_ne_nil hs.1 _
  · rw [toList_append, mem_append]
    exact not_or.2 ⟨hs.2, ht⟩

theorem Unquoted.appended (hs : '"' ∉ s.toList) (ht : Unquoted t) : Unquoted (s ++ t) := by
  refine ⟨?_, ?_⟩
  · rw [toList_append]
    exact append_ne_nil_of_right_ne_nil _ ht.1
  · rw [toList_append, mem_append]
    exact not_or.2 ⟨hs, ht.2⟩

theorem Unquoted.exists_head (h : Unquoted s) : ∃ c rest, s.toList = c :: rest ∧ c ≠ '"' := by
  cases hc : s.toList with
  | nil => exact absurd hc h.1
  | cons c rest =>
    refine ⟨c, rest, rfl, fun hq => h.2 ?_⟩
    rw [hc, hq]
    exact mem_cons_self

theorem quote_not_mem_toDigits : '"' ∉ toDigits 10 n := fun h =>
  absurd (isDigit_of_mem_toDigits (by decide) (by decide) h) (by decide)

theorem quote_not_mem_zeros : '"' ∉ List.replicate n '0' := fun h =>
  absurd (List.eq_of_mem_replicate h) (by decide)

theorem unquoted_ofNat : Unquoted (ofNat n) := by
  refine ⟨?_, ?_⟩
  · rw [ofNat, toList_ofList]
    exact toDigits_ne_nil
  · rw [ofNat, toList_ofList]
    exact quote_not_mem_toDigits n

theorem unquoted_ofInt (n : Int) : Unquoted (ofInt n) := by
  cases n with
  | ofNat n => exact unquoted_ofNat n
  | negSucc n => exact Unquoted.appended (by decide) (unquoted_ofNat (n + 1))

theorem quote_not_mem_padded (wd n : Nat) : '"' ∉ (padded wd n).toList := by
  rw [padded, toList_ofList, List.mem_append]
  exact not_or.2 ⟨quote_not_mem_zeros _, quote_not_mem_toDigits _⟩

theorem unquoted_layout (d : Decimal.Scaled) : Unquoted d.layout := by
  have hd := quote_not_mem_toDigits d.digits
  have ht (n : Nat) : '"' ∉ (ofList ((toDigits 10 d.digits).take n)).toList := by
    rw [toList_ofList]
    exact fun h => hd (List.mem_of_mem_take h)
  have hdr (n : Nat) : '"' ∉ (ofList ((toDigits 10 d.digits).drop n)).toList := by
    rw [toList_ofList]
    exact fun h => hd (List.mem_of_mem_drop h)
  have hc {s : String} (h : s.toList ≠ [] ∧ '"' ∉ s.toList) : Unquoted s := h
  unfold Decimal.Scaled.layout
  extract_lets ds lead all frac
  split
  · split
    · refine Unquoted.appended ?_ (hc (by decide))
      rw [toList_ofList, List.mem_append]
      exact not_or.2 ⟨hd, quote_not_mem_zeros _⟩
    · split
      · exact (Unquoted.appended (ht _) (hc (by decide))).append (hdr _)
      · refine (hc (by decide)).append ?_
        rw [toList_ofList, List.mem_append]
        exact not_or.2 ⟨quote_not_mem_zeros _, hd⟩
  · refine Unquoted.append (Unquoted.appended ?_ ?_) (quote_not_mem_padded _ _)
    · rw [toList_append, List.mem_append]
      refine not_or.2 ⟨ht _, ?_⟩
      split
      · decide
      · exact ((hc (by decide)).append (hdr 1)).2
    · split <;> exact hc (by decide)

theorem unquoted_floatText (x : Float) : Unquoted (floatText x) := by
  have hc {s : String} (h : s.toList ≠ [] ∧ '"' ∉ s.toList) : Unquoted s := h
  unfold floatText
  split
  · exact hc (by decide)
  · split
    · unfold Decimal.finiteText
      extract_lets b body
      have hs : Unquoted body := by
        show Unquoted (if b.mantissa == 0 then "0.0" else b.shortest.layout)
        split
        · exact hc (by decide)
        · exact unquoted_layout _
      split
      · exact Unquoted.appended (by decide) hs
      · exact hs
    · split <;> exact hc (by decide)

theorem exists_head_ne_quote (style : Style) (lv : Nat) (v : Json) :
    (∃ s, v = .str s) ∨ ∃ c rest, chars style lv v = c :: rest ∧ c ≠ '"' := by
  have hb (left right : Char) (ne : left ≠ '"') (ps : List (List Char)) :
      ∃ c rest, bracketed style lv left right ps = c :: rest ∧ c ≠ '"' := by
    unfold bracketed
    split
    · exact ⟨left, [right], rfl, ne⟩
    · exact ⟨left, _, rfl, ne⟩
  cases v with
  | str s => exact .inl ⟨s, rfl⟩
  | null => exact .inr ⟨'n', "ull".toList, by rw [chars]; rfl, by decide⟩
  | bool b =>
    cases b with
    | true => exact .inr ⟨'t', "rue".toList, by rw [chars]; rfl, by decide⟩
    | false => exact .inr ⟨'f', "alse".toList, by rw [chars]; rfl, by decide⟩
  | int n =>
    rw [chars]
    exact .inr (unquoted_ofInt n).exists_head
  | float x =>
    rw [chars]
    exact .inr (unquoted_floatText x).exists_head
  | arr | obj =>
    rw [chars]
    exact .inr (hb _ _ (by decide) _)

end Appwright.Json
