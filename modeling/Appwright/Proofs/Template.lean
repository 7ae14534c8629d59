import Appwright.Proofs.Json.Writer
import Appwright.Proofs.Text
import Appwright.Template

/-!
# Values that are templates for themselves

Rendering looks at the strings of a value and at nothing else: a value stands for itself in a
context exactly when each of its strings does (`render_eq_self_iff`). A string without placeholders
stands for itself in every context (`renderString_of_not_hasHole`). What rendering changes can be seen
in the JSON text: the text of the rendered value is that of the value only if nothing was changed
(`encode_render_eq_iff`).
-/

namespace Appwright

open List String Json Except

namespace Json

mutual
/-- The strings that a value holds, the names of members apart. -/
def strings : Json → List String
  | .str s => [s]
  | .arr items => stringsOfItems items
  | .obj members => stringsOfMembers members
  | _ => []
def stringsOfItems : List Json → List String
  | [] => []
  | v :: rest => strings v ++ stringsOfItems rest
def stringsOfMembers : List (String × Json) → List String
  | [] => []
  | (_, v) :: rest => strings v ++ stringsOfMembers rest
end

end Json

namespace Template

variable {ctx : Members} {u v : Json} {cs ds path rest : List Char} {s e : String}

/-! ## What rendering a collection is made of -/

theorem render_arr_eq_ok_iff {xs : List Json} :
    render ctx (.arr xs) = .ok u ↔ ∃ us, renderItems ctx xs = .ok us ∧ .arr us = u := by
  rw [render]
  cases renderItems ctx xs <;> simp [Except.map]

theorem render_obj_eq_ok_iff {ms : List (String × Json)} : render ctx (.obj ms) = .ok u ↔
      ∃ us, renderMembers ctx ms = .ok us ∧ .obj us = u := by
  rw [render]
  cases renderMembers ctx ms <;> simp [Except.map]

theorem renderItems_cons_eq_ok_iff {rest us : List Json} : renderItems ctx (v :: rest) = .ok us ↔
      ∃ w ws, render ctx v = .ok w ∧ renderItems ctx rest = .ok ws ∧ w :: ws = us := by
  rw [renderItems]
  cases render ctx v <;> cases renderItems ctx rest <;> simp [bind, Except.bind, pure, Except.pure]

theorem renderMembers_cons_eq_ok_iff {name : String} {rest us : List (String × Json)} :
    renderMembers ctx ((name, v) :: rest) = .ok us ↔
      ∃ w ws, render ctx v = .ok w ∧ renderMembers ctx rest = .ok ws ∧ (name, w) :: ws = us := by
  rw [renderMembers]
  cases render ctx v <;> cases renderMembers ctx rest <;> simp [bind, Except.bind, pure, Except.pure]

/-! ## Values that stand for themselves -/

mutual
theorem render_eq_self_iff : ∀ v : Json,
    render ctx v = .ok v ↔ ∀ s ∈ v.strings, renderString ctx s = .ok (.str s)
  | .null | .bool _ | .int _ | .float _ | .str _ => by simp [render, strings]
  | .arr xs => by
    rw [render_arr_eq_ok_iff, strings, ← renderItems_eq_self_iff xs]
    simp
  | .obj ms => by
    rw [render_obj_eq_ok_iff, strings, ← renderMembers_eq_self_iff ms]
    simp
theorem renderItems_eq_self_iff : ∀ xs : List Json, renderItems ctx xs = .ok xs ↔
      ∀ s ∈ stringsOfItems xs, renderString ctx s = .ok (.str s)
  | [] => by simp [renderItems, stringsOfItems]
  | v :: rest => by
    rw [renderItems_cons_eq_ok_iff, stringsOfItems, forall_mem_append,
      ← render_eq_self_iff v, ← renderItems_eq_self_iff rest]
    simp
theorem renderMembers_eq_self_iff : ∀ ms : List (String × Json), renderMembers ctx ms = .ok ms ↔
      ∀ s ∈ stringsOfMembers ms, renderString ctx s = .ok (.str s)
  | [] => by simp [renderMembers, stringsOfMembers]
  | (name, v) :: rest => by
    rw [renderMembers_cons_eq_ok_iff, stringsOfMembers, forall_mem_append,
      ← render_eq_self_iff v, ← renderMembers_eq_self_iff rest]
    simp
end

/-! ## What the JSON text of a rendered value tells -/

theorem bracketed_compact (lv : Nat) (left right : Char) (ps : List (List Char))
    (cs : List Char) : bracketed compact lv left right ps ++ cs =
      left :: (joinChars [',', ' '] ps ++ right :: cs) := by
  cases ps with
  | nil => rfl
  | cons p rest => simp [bracketed, compact, Style.break]

mutual
/-- The text of a rendered value begins like that of the value only if they are the same. The
induction is on the value; what follows the two texts is arbitrary, so that items and members can
be compared one after the other. -/
theorem eq_of_chars_render : ∀ (v u : Json) (lv : Nat) (cs ds : List Char), render ctx v = .ok u →
    Json.chars Json.compact lv u ++ cs = Json.chars Json.compact lv v ++ ds → u = v
  | .null, u, _, _, _, h, _ | .bool _, u, _, _, _, h, _ | .int _, u, _, _, _, h, _
  | .float _, u, _, _, _, h, _ => by
    rw [render] at h
    · exact (ok.inj h).symm
    all_goals simp
  | .str s, u, lv, cs, ds, _, hs => by
    rcases Json.exists_head_ne_quote Json.compact lv u with ⟨t, rfl⟩ | ⟨c, rest, head, ne⟩
    · rw [Json.chars, Json.chars] at hs
      rw [(Json.stringChars_append_inj hs).1]
    · rw [head, Json.chars] at hs
      exact absurd (List.cons.inj hs).1 ne
  | .arr xs, u, lv, cs, ds, h, hs => by
    obtain ⟨us, hr, rfl⟩ := render_arr_eq_ok_iff.1 h
    rw [Json.chars, Json.chars, bracketed_compact, bracketed_compact] at hs
    rw [eq_of_itemChars_render xs us (lv + 1) _ _ hr (List.cons.inj hs).2]
  | .obj ms, u, lv, cs, ds, h, hs => by
    obtain ⟨us, hr, rfl⟩ := render_obj_eq_ok_iff.1 h
    simp only [Json.chars, Json.compact, Bool.false_eq_true, if_false] at hs
    rw [← Json.compact, bracketed_compact, bracketed_compact] at hs
    rw [eq_of_memberChars_render ms us (lv + 1) _ _ hr (List.cons.inj hs).2]
theorem eq_of_itemChars_render : ∀ (vs us : List Json) (lv : Nat) (cs ds : List Char),
    renderItems ctx vs = .ok us → joinChars [',', ' '] (itemChars compact lv us) ++ cs =
      joinChars [',', ' '] (itemChars compact lv vs) ++ ds → us = vs
  | [], us, _, _, _, h, _ => by
    rw [renderItems] at h
    exact (ok.inj h).symm
  | [v], us, lv, cs, ds, h, hs => by
    obtain ⟨u, us, hu, hus, rfl⟩ := renderItems_cons_eq_ok_iff.1 h
    cases hus
    rw [eq_of_chars_render v u lv cs ds hu hs]
  | v :: v' :: vs, us, lv, cs, ds, h, hs => by
    obtain ⟨u, us, hu, hus, rfl⟩ := renderItems_cons_eq_ok_iff.1 h
    obtain ⟨u', us', hu', hus', rfl⟩ := renderItems_cons_eq_ok_iff.1 hus
    simp only [itemChars, joinChars, List.append_assoc] at hs
    obtain rfl := eq_of_chars_render v u lv _ _ hu hs
    have hr := eq_of_itemChars_render (v' :: vs) (u' :: us') lv cs ds hus
      (List.append_cancel_left (List.append_cancel_left hs))
    rw [hr]
theorem eq_of_memberChars_render : ∀ (vs us : List (String × Json)) (lv : Nat) (cs ds : List Char),
    renderMembers ctx vs = .ok us → joinChars [',', ' '] ((memberChars compact lv us).map Prod.snd) ++ cs =
      joinChars [',', ' '] ((memberChars compact lv vs).map Prod.snd) ++ ds →
    us = vs
  | [], us, _, _, _, h, _ => by
    rw [renderMembers] at h
    exact (ok.inj h).symm
  | [(k, v)], us, lv, cs, ds, h, hs => by
    obtain ⟨u, us, hu, hus, rfl⟩ := renderMembers_cons_eq_ok_iff.1 h
    cases hus
    simp only [memberChars, List.map_cons, List.map_nil, joinChars, List.append_assoc] at hs
    rw [eq_of_chars_render v u lv cs ds hu (List.append_cancel_left (List.append_cancel_left hs))]
  | (k, v) :: (k', v') :: vs, us, lv, cs, ds, h, hs => by
    obtain ⟨u, us, hu, hus, rfl⟩ := renderMembers_cons_eq_ok_iff.1 h
    obtain ⟨u', us', hu', hus', rfl⟩ := renderMembers_cons_eq_ok_iff.1 hus
    simp only [memberChars, List.map_cons, joinChars, List.append_assoc] at hs
    have hs := List.append_cancel_left (List.append_cancel_left hs)
    obtain rfl := eq_of_chars_render v u lv _ _ hu hs
    have hr := eq_of_memberChars_render ((k', v') :: vs) ((k', u') :: us') lv cs ds hus (by
      simpa only [memberChars, List.map_cons, List.append_assoc] using
        List.append_cancel_left (List.append_cancel_left hs))
    rw [hr]
end

theorem encode_render_eq_iff (h : render ctx v = .ok u) :
    encode u = encode v ↔ render ctx v = .ok v := by
  refine ⟨fun same => ?_, fun itself => ?_⟩
  · have chars : chars compact 0 u = chars compact 0 v := ofList_inj.1 same
    rw [h, eq_of_chars_render v u 0 [] [] h (by rw [chars])]
  · rw [h] at itself
    rw [ok.inj itself]

/-! ## Placeholders -/

/-- A placeholder stands somewhere in a list of characters: a dollar sign, and a path that is not
empty between braces. -/
def HasHole (cs : List Char) : Prop :=
  ∃ before path after, cs = before ++ '$' :: '{' :: (path ++ '}' :: after) ∧ path ≠ [] ∧ '}' ∉ path

theorem HasHole.of_part (h : HasHole cs) (hi : cs <:+: ds) : HasHole ds := by
  obtain ⟨pre, path, post, rfl, hn, hf⟩ := h
  obtain ⟨left, right, rfl⟩ := hi
  exact ⟨left ++ pre, path, post ++ right, by simp, hn, hf⟩

theorem not_hasHole_of_not_mem (ha : '$' ∉ cs) : ¬ HasHole cs := by
  rintro ⟨pre, path, post, rfl, -⟩
  exact ha (by simp)

theorem eq_of_hole? (h : hole? cs = some (path, rest)) :
    cs = '{' :: (path ++ '}' :: rest) ∧ path ≠ [] ∧ '}' ∉ path := by
  unfold hole? at h
  split at h
  case h_2 => cases h
  rename_i body
  split at h
  case h_2 => cases h
  rename_i close rest' hf
  -- The path ends where the closing brace stands.
  have he : close = '}' := by
    have first := head?_dropWhile_not (· != '}') body
    rw [hf] at first
    simpa using first
  dsimp only at h
  split at h
  case isTrue => cases h
  rename_i hn
  obtain ⟨rfl, rfl⟩ := Prod.mk.inj (Option.some.inj h)
  refine ⟨?_, by simpa using hn, fun hi => ?_⟩
  · rw [he] at hf
    rw [← hf, List.takeWhile_append_dropWhile]
  · simpa using mem_takeWhile_imp hi

theorem pieces_hole (hf : hole? cs = some (path, rest)) :
    pieces ('$' :: cs) = .hole path :: pieces rest := by
  rw [pieces, if_pos (by decide)]
  split
  next hs =>
    rw [hf] at hs
    cases hs
    rfl
  next none => rw [hf] at none; cases none

theorem pieces_char {c : Char} (hp : c = '$' → hole? cs = none) :
    pieces (c :: cs) = .char c :: pieces cs := by
  rw [pieces]
  split
  next hd =>
    split
    next hf => rw [hp (beq_iff_eq.1 hd)] at hf; cases hf
    next => rfl
  next => rfl

theorem pieces_of_not_hasHole (hp : ¬ HasHole cs) : pieces cs = cs.map .char := by
  induction cs with
  | nil => rw [pieces, map_nil]
  | cons c cs ih =>
    have hr := ih fun h => hp (h.of_part (suffix_cons c cs).isInfix)
    rw [pieces_char, hr, map_cons]
    rintro rfl
    by_contra some
    obtain ⟨⟨path, post⟩, hf⟩ := Option.ne_none_iff_exists'.1 some
    obtain ⟨rfl, hn, hfr⟩ := eq_of_hole? hf
    exact hp ⟨[], path, post, rfl, hn, hfr⟩

theorem mapM_render_char (cs : List Char) :
    (cs.map Piece.char).mapM (Piece.render ctx) = .ok (cs.map singleton) := by
  induction cs with
  | nil => rfl
  | cons c cs ih =>
    rw [map_cons, mapM_cons, ih]
    rfl

theorem renderText_of_not_hasHole (hp : ¬ HasHole s.toList) : renderText ctx s = .ok s := by
  rw [renderText, pieces_of_not_hasHole hp, mapM_render_char]
  show ok (join (s.toList.map singleton)) = ok s
  congr 1
  rw [← toList_inj, toList_join, flatMap_map]
  simp

theorem renderString_of_not_hasHole (hp : ¬ HasHole s.toList) :
    renderString ctx s = .ok (.str s) := by
  obtain ⟨lead, tail, hpa, -⟩ := Text.trim_parts s
  have ht := pieces_of_not_hasHole fun h =>
    hp (h.of_part ⟨lead, tail, by rw [hpa, List.append_assoc]⟩)
  unfold renderString
  split
  · rename_i path hs
    rw [ht] at hs
    have first : Piece.hole path ∈ (Text.trim s).toList.map Piece.char := by
      rw [hs]
      exact List.mem_cons_self
    obtain ⟨c, -, ho⟩ := List.mem_map.1 first
    cases ho
  · rw [renderText_of_not_hasHole hp]
    rfl

/-! ## Templates one after the other -/

/-- No placeholder that begins in these characters is left open at their end. -/
structure Closed (cs : List Char) : Prop where
  last : cs.getLast? ≠ some '$'
  braces : ∀ before after, cs = before ++ '$' :: '{' :: after → '}' ∈ after

theorem Closed.of_append (hc : Closed (cs ++ ds)) : Closed ds where
  last h := hc.last (by rw [List.getLast?_append, h]; rfl)
  braces pre post h := hc.braces (cs ++ pre) post (by rw [h, List.append_assoc])

theorem closed_of_not_mem (ha : '$' ∉ cs) : Closed cs where
  last h := ha (mem_of_getLast? h)
  braces pre post h := absurd (by simp [h]) ha

theorem closed_of_getLast? (he : cs.getLast? = some '}') : Closed cs where
  last h := absurd (he.symm.trans h) (by decide)
  braces pre post h := by
    subst h
    rcases eq_nil_or_concat' post with rfl | ⟨inside, c, rfl⟩
    · simp at he
    · rw [← List.cons_append, ← List.cons_append, ← List.append_assoc, List.getLast?_concat] at he
      cases he
      simp

theorem hole?_braces (hf : '}' ∉ path) (rest : List Char) :
    hole? ('{' :: (path ++ '}' :: rest)) = if path.isEmpty then none else some (path, rest) := by
  have hi : ∀ c ∈ path, (c != '}') := fun c hc => bne_iff_ne.2 fun hs => hf (hs ▸ hc)
  rw [hole?, dropWhile_append_of_pos hi, takeWhile_append_of_pos hi]
  simp

/-- Whether a placeholder follows a dollar sign is settled before the characters end. -/
theorem hole?_append (hc : Closed ('$' :: cs)) (ds : List Char) :
    hole? (cs ++ ds) = (hole? cs).map fun p => (p.1, p.2 ++ ds) := by
  cases cs with
  | nil => exact absurd rfl hc.last
  | cons c cs =>
    by_cases hb : c = '{'
    · subst hb
      obtain ⟨path, rest, rfl, hf⟩ := eq_append_cons_of_mem (hc.braces [] cs rfl)
      rw [hole?_braces hf, List.cons_append, List.append_assoc, List.cons_append, hole?_braces hf]
      split <;> rfl
    · simp [hole?, hb]

/-- Characters in which no placeholder is left open are a template of their own. -/
theorem pieces_append (hc : Closed cs) (ds : List Char) : pieces (cs ++ ds) = pieces cs ++ pieces ds := by
  fun_induction pieces cs with
  | case1 => rfl
  | case2 c cs hd path rest hf ih =>
    obtain rfl := beq_iff_eq.1 hd
    have ha := hole?_append hc ds
    rw [hf] at ha
    obtain ⟨rfl, -⟩ := eq_of_hole? hf
    have hfr : '$' :: '{' :: (path ++ '}' :: rest) = ('$' :: '{' :: (path ++ ['}'])) ++ rest := by simp
    rw [hfr] at hc
    rw [cons_append, pieces_hole ha, ih hc.of_append, cons_append]
  | case3 c cs hd hf ih =>
    obtain rfl := beq_iff_eq.1 hd
    have ha := hole?_append hc ds
    rw [hf] at ha
    rw [cons_append, pieces_char fun _ => ha, ih (Closed.of_append (show Closed (['$'] ++ cs) from hc)),
      cons_append]
  | case4 c cs ho ih =>
    rw [cons_append, pieces_char fun hs => absurd (beq_iff_eq.2 hs) ho,
      ih (Closed.of_append (show Closed ([c] ++ cs) from hc)), cons_append]

theorem renderText_append {t : String} (hc : Closed s.toList) : renderText ctx (s ++ t) = do
      let a ← renderText ctx s
      let b ← renderText ctx t
      return a ++ b := by
  unfold renderText
  rw [toList_append, pieces_append hc, mapM_append]
  cases (pieces s.toList).mapM (Piece.render ctx) with
  | error e => rfl
  | ok pre =>
    cases (pieces t.toList).mapM (Piece.render ctx) with
    | error e => rfl
    | ok post => exact congrArg ok join_append

theorem pieces_single (some : e ≠ "") (hfr : '}' ∉ e.toList) :
    pieces ("$\x7b" ++ e ++ "\x7d").toList = [.hole e.toList] := by
  have hf := hole?_braces hfr []
  rw [if_neg (by simpa using some)] at hf
  simpa [pieces] using pieces_hole hf

theorem renderText_hole (some : e ≠ "") (hf : '}' ∉ e.toList) :
    renderText ctx ("$\x7b" ++ e ++ "\x7d") =
      (Json.lookup (Text.trim e) ctx).map fun v => if v.isNull then "" else v.display := by
  rw [renderText, pieces_single some hf, List.mapM_cons, List.mapM_nil, Piece.render, pathOf, String.ofList_toList]
  cases Json.lookup (Text.trim e) ctx with
  | error e => rfl
  | ok v => exact congrArg ok (by simp)

/-- Rendering is compositional and makes one pass: a template that leaves no placeholder open is
rendered apart from what follows, one without placeholders stays as it is, and a placeholder becomes
the text of its value as it is. -/
theorem renderText_single_pass (context : Json.Members) :
    (∀ s t : String, Closed s.toList → renderText context (s ++ t) = do
      let a ← renderText context s
      let b ← renderText context t
      return a ++ b) ∧
    (∀ s : String, ¬ HasHole s.toList → renderText context s = .ok s) ∧
    ∀ e : String, e ≠ "" → '}' ∉ e.toList → renderText context ("$\x7b" ++ e ++ "\x7d") =
      (Json.lookup (Text.trim e) context).map fun v => if v.isNull then "" else v.display :=
  ⟨fun _ _ => renderText_append, fun _ => renderText_of_not_hasHole, fun _ => renderText_hole⟩

/-- What a placeholder brings in is not rendered again. -/
theorem renderText_nested : Closed ("$\x7b" ++ "a" ++ "\x7d").toList ∧
    renderText [("a", .str "$\x7bb\x7d"), ("b", .int 1)] ("$\x7b" ++ "a" ++ "\x7d" ++ "!") =
      .ok "$\x7bb\x7d!" := by
  obtain ⟨apart, plain, hole⟩ := renderText_single_pass [("a", .str "$\x7bb\x7d"), ("b", .int 1)]
  have closed : Closed ("$\x7b" ++ "a" ++ "\x7d").toList := closed_of_getLast? (by simp)
  have mark : ¬ HasHole "!".toList := not_hasHole_of_not_mem (by simp)
  refine ⟨closed, ?_⟩
  rw [apart _ _ closed, hole "a" (by decide) (by simp), plain "!" mark]
  rfl

/-! ## What rendering reads -/

/-- Two contexts have the same value under the first segment of a path. -/
def AgreeOn (c d : Members) (path : String) : Prop :=
  ∀ root ∈ (pathSegments path).head?,
    (Entries.get? root c).getD .null = (Entries.get? root d).getD .null

/-- Two contexts agree on the placeholders of a text. -/
def AgreeOnHoles (c d : Members) (s : String) : Prop :=
  ∀ path, .hole path ∈ pieces s.toList → AgreeOn c d (pathOf path)

section Agree

variable {c d : Members}

theorem AgreeOn.lookup {path : String} (ha : AgreeOn c d path) :
    Json.lookup path c = Json.lookup path d := by
  unfold Json.lookup
  cases hs : Json.pathSegments path with
  | nil => rfl
  | cons root rest => exact congrArg (Json.follow · rest) (ha root (by rw [hs]; rfl))

theorem mapM_render_congr {ps : List Piece} (ha : ∀ path, .hole path ∈ ps → AgreeOn c d (pathOf path)) :
    ps.mapM (Piece.render c) = ps.mapM (Piece.render d) := by
  induction ps with
  | nil => rw [mapM_nil, mapM_nil]
  | cons p ps ih =>
    have here : p.render c = p.render d := by
      cases p with
      | char _ => rfl
      | hole path => rw [Piece.render, Piece.render, (ha path List.mem_cons_self).lookup]
    rw [mapM_cons, mapM_cons, here, ih fun path mem => ha path (mem_cons_of_mem _ mem)]

variable {s : String}

theorem renderText_congr (ha : AgreeOnHoles c d s) : renderText c s = renderText d s := by
  rw [renderText, renderText, mapM_render_congr ha]

theorem pieces_ne_nil (c : Char) (cs : List Char) : pieces (c :: cs) ≠ [] := by
  rw [pieces]
  split
  · split <;> exact cons_ne_nil _ _
  · exact cons_ne_nil _ _

theorem hole?_of_pieces {cs path : List Char} (hs : pieces cs = [.hole path]) :
    ∃ rest, cs = '$' :: rest ∧ hole? rest = some (path, []) := by
  cases cs with
  | nil => simp [pieces] at hs
  | cons c cs =>
    rw [pieces] at hs
    split at hs
    next hd =>
      split at hs
      next post hf =>
        cases post with
        | nil =>
          obtain ⟨⟨⟩, -⟩ := cons.inj hs
          exact ⟨cs, by rw [beq_iff_eq.1 hd], hf⟩
        | cons c post => exact absurd (cons.inj hs).2 (pieces_ne_nil c post)
      next => cases hs
    next => cases hs

theorem hole_mem_of_trim {path : List Char} (hs : pieces (Text.trim s).toList = [.hole path]) :
    .hole path ∈ pieces s.toList := by
  obtain ⟨lead, tail, hp, hbl, -⟩ := Text.trim_parts s
  have hf : Closed lead := closed_of_not_mem fun mem => absurd (hbl '$' mem) (by decide)
  obtain ⟨rest, hi, hfo⟩ := hole?_of_pieces hs
  have hole : hole? (rest ++ tail) = some (path, tail) := by
    obtain ⟨rfl, some, hfr⟩ := eq_of_hole? hfo
    have hb := hole?_braces hfr tail
    rw [if_neg (by simpa using some)] at hb
    simpa using hb
  rw [hp, pieces_append hf, hi, cons_append, pieces_hole hole]
  exact mem_append_right _ mem_cons_self

theorem renderString_congr (ha : AgreeOnHoles c d s) : renderString c s = renderString d s := by
  unfold renderString
  split
  next hs => exact (ha _ (hole_mem_of_trim hs)).lookup
  next => rw [renderText_congr ha]

mutual
theorem render_congr : ∀ v : Json, (∀ s ∈ v.strings, AgreeOnHoles c d s) → render c v = render d v
  | .null, _ | .bool _, _ | .int _, _ | .float _, _ => by simp [render]
  | .str s, ha => by
    rw [render, render, renderString_congr (ha s (by simp [strings]))]
  | .arr xs, ha => by
    rw [render, render, renderItems_congr xs (by rwa [strings] at ha)]
  | .obj ms, ha => by
    rw [render, render, renderMembers_congr ms (by rwa [strings] at ha)]
theorem renderItems_congr : ∀ xs : List Json,
    (∀ s ∈ stringsOfItems xs, AgreeOnHoles c d s) → renderItems c xs = renderItems d xs
  | [], _ => by rw [renderItems, renderItems]
  | v :: rest, ha => by
    rw [stringsOfItems, forall_mem_append] at ha
    rw [renderItems, renderItems, render_congr v ha.1, renderItems_congr rest ha.2]
theorem renderMembers_congr : ∀ ms : List (String × Json),
    (∀ s ∈ stringsOfMembers ms, AgreeOnHoles c d s) → renderMembers c ms = renderMembers d ms
  | [], _ => by rw [renderMembers, renderMembers]
  | (name, v) :: rest, ha => by
    rw [stringsOfMembers, forall_mem_append] at ha
    rw [renderMembers, renderMembers, render_congr v ha.1, renderMembers_congr rest ha.2]
end

end Agree

/-- Rendering reads no more of a context than the roots that the placeholders of the value name, and
leaves a value without placeholders as it is. -/
theorem render_reads_roots (v : Json) :
    (∀ c d : Json.Members, (∀ s ∈ v.strings, AgreeOnHoles c d s) → render c v = render d v) ∧
    ((∀ s ∈ v.strings, ¬ HasHole s.toList) → ∀ c : Json.Members, render c v = .ok v) :=
  ⟨fun _ _ => render_congr v, fun plain _ =>
    (render_eq_self_iff v).mpr fun s mem => renderString_of_not_hasHole (plain s mem)⟩

/-- A key that no placeholder names is not read. -/
theorem render_user : render [("user", .str "ada"), ("key", .str "x")] (.str "$\x7buser\x7d") =
    render [("user", .str "ada"), ("key", .str "y")] (.str "$\x7buser\x7d") := by
  refine (render_reads_roots _).1 _ _ fun s mem => ?_
  obtain rfl : s = "$\x7b" ++ "user" ++ "\x7d" := by simpa [Json.strings] using mem
  intro path mem
  rw [pieces_single (by decide) (by simp)] at mem
  obtain ⟨⟩ := List.mem_singleton.mp mem
  rintro root ⟨⟩
  rfl

end Template

end Appwright
