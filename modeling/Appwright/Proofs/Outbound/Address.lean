import Appwright.Outbound.Session
import Appwright.Proofs.Run
import Appwright.Proofs.Text
import Appwright.Url.Basic
import Mathlib.Data.List.DropRight

/-!
# Addresses as they are written and as they are stored

A request stores its address without the blanks around it. Read again, a stored address has the
scheme of the address and its authority up to blanks at its end (`parse_storedUrl`): an address that
ends right after its authority takes the blanks that follow for a part of it.

Those blanks are no part of the host unless they are its end, so a host that does not end in a blank
stays the same (`host?_of_append`).
-/

namespace Appwright

open List String Text Outbound

namespace Text

theorem lowerChar_ne_nil (c : Char) : lowerChar c ≠ [] := by
  unfold lowerChar mapCase
  split
  · exact cons_ne_nil _ _
  · split
    · rename_i e hf
      have hk := Array.mem_of_find?_eq_some hf
      simp only [lowerExpansions, mem_toArray, mem_singleton] at hk
      subst hk
      exact cons_ne_nil _ _
    · exact cons_ne_nil _ _

variable {s : String} {c : Char}

theorem lower_eq_empty (h : lower s = "") : s = "" := by
  rw [← toList_inj] at h ⊢
  rw [lower, toList_ofList] at h
  cases hc : s.toList with
  | nil => rfl
  | cons c cs =>
    rw [hc, lowerFrom] at h
    have here := (append_eq_nil_iff.1 h).1
    split at here
    · split at here <;> exact absurd here (cons_ne_nil _ _)
    · exact absurd here (lowerChar_ne_nil c)

theorem eq_nil_of_trimBack (hs : trimBack s = s) {xs tail : List Char}
    (hp : s.toList = xs ++ tail) (hb : ∀ c ∈ tail, isBlank c) : tail = [] := by
  have hk := congrArg toList hs
  rw [trimBack, dropBack, toList_ofList, hp, dropLastWhile_append xs hb] at hk
  obtain ⟨cut, hw, -⟩ := dropLastWhile_parts isBlank xs
  have hl := congrArg List.length hk
  have hbo := congrArg List.length hw
  simp only [List.length_append] at hl hbo
  exact List.eq_nil_of_length_eq_zero (by omega)

theorem trimBack_trim (s : String) : trimBack (trim s) = trim s := by
  rw [trimBack, dropBack, trim, dropEnds, toList_ofList, dropLastWhile, dropLastWhile,
    reverse_reverse, dropWhile_idempotent]

theorem ne_of_isBlank {d : Char} (hb : isBlank c) (ho : isBlank d = false) : c ≠ d := by
  rintro rfl
  rw [hb] at ho
  cases ho

def blanks : List Nat :=
  range' 9 5 ++ range' 28 5 ++ [0x85, 0xA0, 0x1680] ++ range' 0x2000 11 ++
    [0x2028, 0x2029, 0x202F, 0x205F, 0x3000]

theorem toNat_mem_blanks (hb : isBlank c) : c.toNat ∈ blanks := by
  simp only [isBlank, Bool.or_eq_true, Bool.and_eq_true, decide_eq_true_eq, beq_iff_eq] at hb
  simp only [blanks, mem_append, mem_range'_1, mem_cons, not_mem_nil, or_false]
  grind

theorem lowerChar_of_isBlank (hb : isBlank c) : lowerChar c = [c] := by
  have hc : ∀ n ∈ blanks, lowerChar (Char.ofNat n) = [Char.ofNat n] := by decide +kernel
  have here := hc _ (toNat_mem_blanks hb)
  rwa [Char.ofNat_toNat] at here

theorem exists_lowerFrom_concat (pre cs : List Char) (hb : isBlank c) :
    ∃ front, lowerFrom pre (cs ++ [c]) = front ++ [c] := by
  induction cs generalizing pre with
  | nil =>
    have hn : (c.toNat == 931) = false := by
      rw [beq_eq_false_iff_ne]
      intro hs
      simp [isBlank, hs] at hb
    refine ⟨[], ?_⟩
    simp only [nil_append, lowerFrom, hn, Bool.false_eq_true, if_false, lowerChar_of_isBlank hb, append_nil]
  | cons x cs ih =>
    obtain ⟨front, hr⟩ := ih (x :: pre)
    rw [cons_append, lowerFrom, hr]
    exact ⟨_ ++ front, (List.append_assoc ..).symm⟩

end Text

/-! ## How addresses are read and stored -/

namespace Url

/-- A character that counts wherever it stands in an address. -/
def counts (c : Char) : Bool :=
  c != '\t' && c != '\r' && c != '\n'

def clean (cs : List Char) : List Char :=
  (cs.dropWhile fun c => c.toNat ≤ 0x20).filter counts

variable {c : Char} {cs lead more tail rest post : List Char} {authority text scheme : String}

theorem mem_of_mem_clean (h : c ∈ clean cs) : c ∈ cs := (dropWhile_sublist _).subset (mem_filter.1 h).1

theorem clean_cons_of_le (cs : List Char) (h : c.toNat ≤ 0x20) : clean (c :: cs) = clean cs := by
  unfold clean
  rw [dropWhile_cons, if_pos (decide_eq_true h)]

theorem clean_cons_of_lt (cs : List Char) (h : 0x20 < c.toNat) :
    clean (c :: cs) = c :: cs.filter counts := by
  have hv : counts c := by
    simp only [counts, Bool.and_eq_true, bne_iff_ne]
    refine ⟨⟨?_, ?_⟩, ?_⟩ <;> (rintro rfl; exact absurd h (by decide))
  unfold clean
  rw [dropWhile_cons, if_neg (by simpa using h), filter_cons, if_pos hv]

theorem clean_append_left (ho : ∀ x ∈ lead, x.isAlpha = false)
    (hl : c.isAlpha) (h : clean (lead ++ cs) = c :: more) : clean (lead ++ cs) = clean cs := by
  induction lead with
  | nil => rfl
  | cons x lead ih =>
    by_cases hs : x.toNat ≤ 0x20
    · rw [cons_append, clean_cons_of_le _ hs] at h ⊢
      exact ih (fun y hy => ho y (mem_cons_of_mem _ hy)) h
    · rw [cons_append, clean_cons_of_lt _ (Nat.lt_of_not_le hs)] at h
      cases h
      rw [ho c mem_cons_self] at hl
      cases hl

theorem clean_append_right (ho : ∀ x ∈ tail, x.isAlpha = false)
    (hl : c.isAlpha) (h : clean (cs ++ tail) = c :: more) :
    clean (cs ++ tail) = clean cs ++ tail.filter counts := by
  induction cs with
  | nil =>
    have mem : c ∈ tail := mem_of_mem_clean (h ▸ mem_cons_self)
    rw [ho c mem] at hl
    cases hl
  | cons x cs ih =>
    by_cases hs : x.toNat ≤ 0x20
    · rw [cons_append, clean_cons_of_le _ hs] at h ⊢
      rw [clean_cons_of_le _ hs]
      exact ih h
    · have big := Nat.lt_of_not_le hs
      rw [cons_append, clean_cons_of_lt _ big, clean_cons_of_lt _ big, filter_append, cons_append]

theorem clean_middle (hb : ∀ x ∈ lead, x.isAlpha = false)
    (hbe : ∀ x ∈ tail, x.isAlpha = false) (hl : c.isAlpha)
    (h : clean (lead ++ (cs ++ tail)) = c :: more) :
    clean (lead ++ (cs ++ tail)) = clean cs ++ tail.filter counts := by
  have first := clean_append_left hb hl h
  rw [first] at h ⊢
  exact clean_append_right hbe hl h

theorem parse_eq_ok {u : Url} (h : parse text = .ok u) :
    ∃ rest post, takeScheme (clean text.toList) = (u.scheme, rest) ∧
      takeAuthority rest = .ok (u.authority, post) ∧ checkLookalikes u.authority = .ok () := by
  obtain ⟨⟨authority, post⟩, ht, h⟩ := of_bind_ok h
  obtain ⟨_, hp, ⟨⟩⟩ := of_bind_ok h
  exact ⟨_, post, rfl, ht, hp⟩

theorem exists_parse
    (first : takeScheme (clean text.toList) = (scheme, rest))
    (hs : takeAuthority rest = .ok (authority, post))
    (hp : checkLookalikes authority = .ok ()) :
    ∃ u, parse text = .ok u ∧ u.scheme = scheme ∧ u.authority = authority := by
  unfold parse
  dsimp only
  unfold clean counts at first
  rw [first]
  simp only [bind, Except.bind, hs, hp]
  exact ⟨_, rfl, rfl, rfl⟩

theorem takeScheme_eq (h : takeScheme cs = (scheme, rest))
    (hg : scheme ≠ "") : ∃ c pre, cs = c :: pre ++ ':' :: rest ∧ c.isAlpha ∧
      (c :: pre).all isSchemeChar ∧ scheme = lower (ofList (c :: pre)) := by
  unfold takeScheme at h
  have hw := takeWhile_append_dropWhile (p := (· != ':')) (l := cs)
  extract_lets pre at h
  have hd : cs.drop pre.length = cs.dropWhile (· != ':') := by
    rw [← hw]
    rw [drop_left' rfl, hw]
  rw [hd] at h
  split at h
  · rename_i c x post first hf
    split at h
    · rename_i hv
      cases h
      have hc : x = ':' := by
        have hs := head?_dropWhile_not (· != ':') cs
        rw [hf] at hs
        simpa using hs
      obtain ⟨more, hp⟩ := head?_eq_some_iff.1 first
      rw [Bool.and_eq_true] at hv
      refine ⟨c, more, ?_, hv.1, hp ▸ hv.2, by rw [hp]⟩
      rw [← hp, ← hc, ← hf]
      exact hw.symm
    · cases h
      exact absurd rfl hg
  · cases h
    exact absurd rfl hg

theorem takeScheme_append {pre : List Char} (hl : c.isAlpha)
    (hv : (c :: pre).all isSchemeChar) (rest : List Char) :
    takeScheme (c :: pre ++ ':' :: rest) = (lower (ofList (c :: pre)), rest) := by
  have hn : ∀ x ∈ c :: pre, (x != ':') := by
    intro x hx
    have ok := all_eq_true.1 hv x hx
    rw [bne_iff_ne]
    rintro rfl
    exact absurd ok (by decide)
  have cut : (c :: pre ++ ':' :: rest).takeWhile (· != ':') = c :: pre := by
    rw [takeWhile_append_of_pos hn, takeWhile_cons, if_neg (by simp), append_nil]
  unfold takeScheme
  rw [cut]
  simp [hl, hv]

theorem takeAuthority_eq (h : takeAuthority cs = .ok (authority, post))
    (hg : authority ≠ "") : ∃ rest, cs = '/' :: '/' :: rest ∧
      authority = ofList (rest.takeWhile fun c => !endsAuthority c) ∧ checkBrackets authority = .ok () := by
  unfold takeAuthority at h
  split at h
  · rename_i rest
    extract_lets all at h
    cases hb : checkBrackets all with
    | error e => rw [hb] at h; cases h
    | ok u =>
      rw [hb] at h
      simp only [Except.ok.injEq, Prod.mk.injEq] at h
      exact ⟨rest, rfl, h.1.symm, h.1 ▸ hb⟩
  · cases h
    exact absurd rfl hg

theorem takeAuthority_append
    (hw : authority = ofList (rest.takeWhile fun c => !endsAuthority c))
    (hb : checkBrackets authority = .ok ()) :
    takeAuthority ('/' :: '/' :: rest) = .ok (authority, rest.dropWhile fun c => !endsAuthority c) := by
  simp only [takeAuthority, ← hw, hb]

end Url

namespace Text

theorem exists_append_of_endsWith {s tail : String} (h : endsWith s tail) :
    ∃ pre, s.toList = pre ++ tail.toList := by
  obtain ⟨rest, hp⟩ := isPrefixOf_iff_prefix.1 h
  refine ⟨rest.reverse, ?_⟩
  rw [← reverse_reverse s.toList, ← hp, reverse_append, reverse_reverse]

end Text

namespace Url

theorem storedUrl_parts {addr scheme : String} {rest : List Char}
    (hr : takeScheme (clean addr.toList) = (scheme, rest)) (hg : scheme ≠ "") (ho : scheme ≠ "url") :
    ∃ lead tail, addr.toList = lead ++ ((storedUrl addr).toList ++ tail) ∧
      (∀ c ∈ lead, Text.isBlank c) ∧ ∀ c ∈ tail, Text.isBlank c ∨ c = '#' := by
  obtain ⟨lead, tail, hp, hle, ht⟩ := Text.trim_parts addr
  obtain ⟨c, pre, hs, hl, -, -⟩ := takeScheme_eq hr hg
  have hst : clean addr.toList = clean ((Text.trim addr).toList ++ tail) := by
    rw [hp]
    rw [hp] at hs
    exact clean_append_left (fun x hx => Text.isAlpha_eq_false_of_isBlank (hle x hx)) hl hs
  have hn : Text.startsWith (Text.trim addr) "<" = false := by
    by_contra h
    obtain ⟨r, hch⟩ := List.isPrefixOf_iff_prefix.1 (Bool.not_eq_false _ ▸ h)
    rw [hst, ← hch, show "<".toList = ['<'] from rfl, List.append_assoc, List.singleton_append,
      clean_cons_of_lt _ (by decide)] at hs
    rw [← (List.cons.inj hs).1] at hl
    exact absurd hl (by decide)
  have hno : Text.afterText? "URL:" (Text.trim addr) = none := by
    by_contra h
    obtain ⟨r, hla⟩ := Option.ne_none_iff_exists'.1 h
    obtain ⟨r', ha, -⟩ := Option.map_eq_some_iff.1 hla
    have hch : clean addr.toList = 'U' :: ['R', 'L'] ++ ':' :: (r' ++ tail).filter counts := by
      rw [hst, Text.eq_append_of_after? ha]
      exact clean_cons_of_lt _ (by decide)
    have hlo : Text.lower (ofList ['U', 'R', 'L']) = "url" := by decide +kernel
    rw [hch, takeScheme_append (by decide) (by decide), hlo] at hr
    exact ho (congrArg Prod.fst hr).symm
  have hsto : storedUrl addr = if Text.endsWith (Text.trim addr) "#" then
        ofList (Text.trim addr).toList.dropLast else Text.trim addr := by
    unfold storedUrl
    simp only [hn, hno, Bool.false_and, Bool.false_eq_true, if_false]
  rw [hsto]
  split
  · rename_i he
    obtain ⟨s, hch⟩ := Text.exists_append_of_endsWith he
    rw [show "#".toList = ['#'] from rfl] at hch
    refine ⟨lead, '#' :: tail, ?_, hle, fun c hc => ?_⟩
    · rw [hp, toList_ofList, hch, List.dropLast_concat, List.append_assoc, List.singleton_append]
    · rcases List.mem_cons.1 hc with rfl | hc
      · exact .inr rfl
      · exact .inl (ht c hc)
  · exact ⟨lead, tail, hp, hle, fun c hc => .inl (ht c hc)⟩

theorem exists_append_of_getLast? {pre cs xs tail : List Char} {c : Char}
    (h : pre ++ cs = xs ++ tail) (hl : pre.getLast? = some c) (ha : c ∉ tail) :
    ∃ more, xs = pre ++ more ∧ cs = more ++ tail := by
  rcases append_eq_append_iff.1 h with hf | ⟨extra, rfl, rfl⟩
  · exact hf
  · rcases eq_nil_or_concat extra with rfl | ⟨extra, d, rfl⟩
    · exact ⟨[], by simp, rfl⟩
    · simp only [List.concat_eq_append, ← List.append_assoc, List.getLast?_append,
        getLast?_singleton, Option.some_or, Option.some.injEq] at hl
      subst hl
      exact absurd (by simp) ha

theorem takeWhile_authority_append (cs : List Char) {tail : List Char}
    (ht : ∀ c ∈ tail, isBlank c ∨ c = '#') :
    ∃ extra, (cs ++ tail).takeWhile (fun c => !endsAuthority c) =
      cs.takeWhile (fun c => !endsAuthority c) ++ extra ∧ ∀ c ∈ extra, isBlank c := by
  rw [takeWhile_append]
  split
  · rename_i all
    refine ⟨tail.takeWhile fun c => !endsAuthority c, ?_, fun c hc => ?_⟩
    · rw [( takeWhile_prefix _).eq_of_length all]
    · have hi := mem_takeWhile_imp (p := fun c => !endsAuthority c) hc
      refine (ht c (( takeWhile_prefix _).subset hc)).resolve_right fun hs => ?_
      rw [hs] at hi
      exact absurd hi (by decide)
  · exact ⟨[], (append_nil _).symm, nofun⟩

theorem checkLookalikes_of_append {kept tail : List Char} {authority : String}
    (hpa : authority.toList = kept ++ tail) (hp : checkLookalikes authority = .ok ()) :
    checkLookalikes (ofList kept) = .ok () := by
  unfold checkLookalikes at hp ⊢
  split at hp
  · cases hp
  · rename_i hc
    rw [hpa, any_append, Bool.or_eq_true] at hc
    rw [toList_ofList, if_neg fun h => hc (.inl h)]

/-- A stored address has the scheme of the address, and its authority up to blanks at the end, if
what is left of brackets is in order. -/
theorem parse_storedUrl {addr : String} {u : Url} (hp : parse addr = .ok u)
    (hu : u.scheme = "http" ∨ u.scheme = "https") (hg : u.authority ≠ "") :
    checkBrackets u.authority = .ok () ∧ ∃ kept tail, u.authority.toList = kept ++ tail ∧
      (∀ c ∈ tail, Text.isBlank c) ∧ (checkBrackets (ofList kept) = .ok () →
        ∃ v, parse (storedUrl addr) = .ok v ∧ v.scheme = u.scheme ∧
          v.authority = ofList kept) := by
  have hna : u.scheme ≠ "" := by rcases hu with h | h <;> rw [h] <;> decide
  have hot : u.scheme ≠ "url" := by rcases hu with h | h <;> rw [h] <;> decide
  obtain ⟨rest, post, first, hse, hpl⟩ := parse_eq_ok hp
  obtain ⟨lead, tail, hpa, hle, ht⟩ := storedUrl_parts first hna hot
  obtain ⟨c, pre, hs, hl, hv, name⟩ := takeScheme_eq first hna
  obtain ⟨cs, rfl, hw, hbr⟩ := takeAuthority_eq hse hg
  have hn : ∀ x ∈ tail, x.isAlpha = false := by
    intro x hx
    rcases ht x hx with hb | rfl
    · exact Text.isAlpha_eq_false_of_isBlank hb
    · rfl
  -- What the address has beyond its stored form comes after the two slashes.
  have cut : c :: pre ++ [':', '/', '/'] ++ cs =
      clean (storedUrl addr).toList ++ tail.filter counts := by
    rw [List.append_assoc]
    rw [hpa] at hs
    exact hs.symm.trans (clean_middle (fun x hx => Text.isAlpha_eq_false_of_isBlank (hle x hx)) hn hl hs)
  have hno : '/' ∉ tail.filter counts := by
    intro mem
    rcases ht _ (List.mem_filter.1 mem).1 with hb | hsi
    · exact absurd hb (by decide)
    · exact absurd hsi (by decide)
  obtain ⟨more, hst, rfl⟩ := exists_append_of_getLast? cut (List.getLast?_append ..) hno
  obtain ⟨extra, hta, hbl⟩ := takeWhile_authority_append more fun x hx => ht x (List.mem_filter.1 hx).1
  have hd : u.authority.toList = (more.takeWhile fun c => !endsAuthority c) ++ extra := by
    rw [hw, toList_ofList, hta]
  refine ⟨hbr, _, extra, hd, hbl, fun ho => ?_⟩
  refine exists_parse ?_ (takeAuthority_append rfl ho) (checkLookalikes_of_append hd hpl)
  rw [hst, List.append_assoc]
  exact name ▸ takeScheme_append hl hv _

end Url

/-! ## Hosts -/

namespace Url

variable {tail : List Char} {u : Url} {h : String}

theorem takeWhile_append_blanks (p : Char → Bool) (xs : List Char) (h : ∀ x ∈ tail, p x) :
    (xs ++ tail).takeWhile p = xs.takeWhile p ∨
      xs.takeWhile p = xs ∧ (xs ++ tail).takeWhile p = xs ++ tail := by
  rw [takeWhile_append]
  split
  · rename_i all
    refine .inr ⟨( takeWhile_prefix _).eq_of_length all, ?_⟩
    rw [takeWhile_eq_self_iff.2 h]
  · exact .inl rfl

def inside (cs : List Char) : List Char :=
  (cs.dropWhile (· != '[')).drop 1

theorem inside_append {cs : List Char} (ho : '[' ∈ cs) (tail : List Char) :
    inside (cs ++ tail) = inside cs ++ tail := by
  have hf : cs.dropWhile (· != '[') ≠ [] := by
    intro none
    have hp := dropWhile_eq_nil_iff.1 none '[' ho
    exact absurd hp (by decide)
  unfold inside
  rw [dropWhile_append, if_neg (by simpa using hf), drop_append_of_le_length]
  exact length_pos_iff.2 hf

def Unclosed (u : Url) : Prop :=
  '[' ∈ u.authority.toList ∧ ']' ∉ inside u.authority.toList

theorem checkBrackets_of_append {kept : List Char}
    (hp : u.authority.toList = kept ++ tail) (hb : ∀ c ∈ tail, isBlank c)
    (hc : ¬ u.Unclosed) (hor : checkBrackets u.authority = .ok ()) :
    checkBrackets (ofList kept) = .ok () := by
  have ha (c : Char) (ho : isBlank c = false) : c ∉ tail := fun mem => ne_of_isBlank (hb c mem) ho rfl
  have hs (c : Char) (ho : isBlank c = false) : (kept ++ tail).contains c = kept.contains c := by
    simp [ha c ho]
  rw [← hor]
  unfold checkBrackets
  rw [toList_ofList, hp]
  simp only [hs '[' (by decide), hs ']' (by decide)]
  cases hop : kept.contains '[' with
  | false => cases kept.contains ']' <;> rfl
  | true =>
    have mem : '[' ∈ kept := contains_iff_mem.1 hop
    have he : ']' ∈ inside kept := by
      by_contra hm
      refine hc ⟨by rw [hp]; exact mem_append_left _ mem, ?_⟩
      rw [hp, inside_append mem]
      exact fun h => (mem_append.1 h).elim hm (ha ']' (by decide))
    have cut : (inside kept ++ tail).takeWhile (· != ']') = (inside kept).takeWhile (· != ']') := by
      rcases takeWhile_append_blanks (· != ']') (inside kept)
        (fun x hx => bne_iff_ne.2 (ne_of_isBlank (hb x hx) (by decide))) with hs | ⟨all, -⟩
      · exact hs
      · have hpa := takeWhile_eq_self_iff.1 all ']' he
        exact absurd hpa (by decide)
    have hw := inside_append mem tail
    unfold inside at hw cut
    rw [hw, cut]

def afterAt (cs : List Char) : List Char :=
  (cs.reverse.takeWhile (· != '@')).reverse

def hostChars (cs : List Char) : List Char :=
  if (afterAt cs).contains '[' then (inside (afterAt cs)).takeWhile (· != ']')
  else (afterAt cs).takeWhile (· != ':')

def hostText (host : List Char) : String :=
  let name := host.takeWhile (· != '%')
  lower (ofList name) ++ ofList (host.drop name.length)

theorem host?_eq (u : Url) : u.host? = if (hostChars u.authority.toList).isEmpty then none
    else some (hostText (hostChars u.authority.toList)) :=
  rfl

theorem hostText_ne_empty {host : List Char} (hf : host ≠ []) : hostText host ≠ "" := by
  intro he
  have hc := congrArg toList he
  rw [hostText, toList_append, toList_ofList, toList_empty, append_eq_nil_iff] at hc
  have hn : host.takeWhile (· != '%') = [] := by
    have none := lower_eq_empty (toList_inj.1 (hc.1.trans toList_empty.symm))
    rw [← toList_inj, toList_ofList] at none
    exact none
  rw [hn] at hc
  exact hf hc.2

theorem host?_ne_empty (hf : u.host? = some h) : h ≠ "" := by
  rw [host?_eq] at hf
  split at hf
  · cases hf
  · rename_i hfu
    rw [Option.some.injEq] at hf
    rw [← hf]
    exact hostText_ne_empty fun none => hfu (by rw [none]; rfl)

theorem hostChars_append (cs : List Char) (hb : ∀ c ∈ tail, isBlank c) :
    hostChars (cs ++ tail) = hostChars cs ∨ hostChars (cs ++ tail) = hostChars cs ++ tail := by
  have ho (d : Char) (hot : isBlank d = false) : ∀ c ∈ tail, (c != d) :=
    fun c hc => bne_iff_ne.2 (ne_of_isBlank (hb c hc) hot)
  have ha : afterAt (cs ++ tail) = afterAt cs ++ tail := by
    unfold afterAt
    rw [reverse_append, takeWhile_append_of_pos
      fun c hc => ho '@' (by decide) c (mem_reverse.1 hc), reverse_append, reverse_reverse]
  have hn : '[' ∉ tail := fun mem => ne_of_isBlank (hb _ mem) (by decide) rfl
  have hs : (afterAt cs ++ tail).contains '[' = (afterAt cs).contains '[' := by simp [hn]
  unfold hostChars
  rw [ha, hs]
  split
  · rename_i hop
    rw [inside_append (contains_iff_mem.1 hop)]
    rcases takeWhile_append_blanks _ _ (ho ']' (by decide)) with hs | ⟨all, hw⟩
    · exact .inl hs
    · exact .inr (by rw [all, hw])
  · rcases takeWhile_append_blanks _ _ (ho ':' (by decide)) with hs | ⟨all, hw⟩
    · exact .inl hs
    · exact .inr (by rw [all, hw])

theorem exists_hostText_concat (cs : List Char) {c : Char} (hb : isBlank c) :
    ∃ pre, (hostText (cs ++ [c])).toList = pre ++ [c] := by
  have hp : ∀ x ∈ [c], (x != '%') := by
    intro x hx
    rw [mem_singleton.1 hx]
    exact bne_iff_ne.2 (ne_of_isBlank hb (by decide))
  unfold hostText
  rcases takeWhile_append_blanks (· != '%') cs hp with hs | ⟨-, hw⟩
  · rw [hs, toList_append, toList_ofList, drop_append_of_le_length ( takeWhile_prefix _).length_le]
    exact ⟨_, (List.append_assoc ..).symm⟩
  · obtain ⟨pre, hl⟩ := exists_lowerFrom_concat [] cs hb
    refine ⟨pre, ?_⟩
    rw [hw, toList_append, toList_ofList, drop_length, append_nil, lower, toList_ofList, toList_ofList, hl]

theorem host?_of_append {v : Url} (hp : u.authority.toList = v.authority.toList ++ tail)
    (hb : ∀ c ∈ tail, isBlank c) (hf : u.host? = some h)
    (hs : trimBack h = h) : v.host? = some h := by
  rw [host?_eq, hp] at hf
  rw [host?_eq]
  rcases hostChars_append v.authority.toList hb with hsa | hl
  · rwa [hsa] at hf
  · rcases eq_nil_or_concat tail with rfl | ⟨tail, c, rfl⟩
    · rwa [append_nil] at hf
    · have hla : isBlank c := hb c (by simp)
      rw [hl, List.concat_eq_append, ← List.append_assoc] at hf
      rw [if_neg (by simp), Option.some.injEq] at hf
      obtain ⟨pre, he⟩ := exists_hostText_concat (hostChars v.authority.toList ++ tail) hla
      rw [hf] at he
      have none := eq_nil_of_trimBack hs he fun x hx => by
        rw [mem_singleton.1 hx]
        exact hla
      exact absurd none (cons_ne_nil _ _)

end Url

end Appwright
