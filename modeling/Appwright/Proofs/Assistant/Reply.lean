import Appwright.Assistant.Reply
import Appwright.Proofs.Json.Reading

/-!
# Objects inside answers

An object is found again in a text around it that has no braces and no backticks, and in a fence that
names the language. The word that names the language is removed wherever it first stands: a fence that
does not name it loses the word from the object itself.
-/

namespace Appwright

open List String Text Json

namespace Text

section Ends

variable {p : Char → Bool} {x y : Char}

theorem dropEnds_between (first : p x = false) (hl : p y = false) (front inner back : List Char) :
    dropEnds p (ofList (front ++ x :: (inner ++ y :: back))) =
      ofList (front.dropWhile p ++ x :: (inner ++ y :: dropLastWhile p back)) := by
  have split : front.dropWhile p ++ x :: (inner ++ y :: back) =
      (front.dropWhile p ++ x :: inner) ++ y :: back := by simp
  rw [dropEnds, toList_ofList, dropWhile_append_cons first, split, dropLastWhile_append_cons hl]
  simp

theorem dropLastWhile_sublist (p : Char → Bool) (xs : List Char) : Sublist (dropLastWhile p xs) xs := by
  have hk := (dropWhile_sublist p (l := xs.reverse)).reverse
  rwa [reverse_reverse] at hk

theorem dropWhile_beq_of_notMem {c : Char} {cs : List Char} (ha : c ∉ cs) : cs.dropWhile (· == c) = cs := by
  cases cs with
  | nil => rfl
  | cons d cs =>
    have ho : d ≠ c := fun hs => ha (hs ▸ mem_cons_self)
    exact dropWhile_cons_of_neg (by simpa using ho)

end Ends

end Text

namespace Assistant

def around (front inner back : List Char) : String :=
  ofList (front ++ '\x7b' :: (inner ++ '\x7d' :: back))

section Around

variable {front inner back : List Char}

theorem braced?_around (first : '\x7b' ∉ front) (hl : '\x7d' ∉ back) :
    braced? (around front inner back) = some (ofList ('\x7b' :: (inner ++ ['\x7d']))) := by
  have ho' : ∀ c ∈ front, (c != '\x7b') := fun c hc => bne_iff_ne.2 fun hs => first (hs ▸ hc)
  have hcl : ∀ c ∈ back, (c != '\x7d') := fun c hc => bne_iff_ne.2 fun hs => hl (hs ▸ hc)
  have hp : '\x7b' :: (inner ++ '\x7d' :: back) = ('\x7b' :: (inner ++ ['\x7d'])) ++ back := by simp
  have hb : dropLastWhile (· != '\x7d') ('\x7b' :: (inner ++ ['\x7d'])) = '\x7b' :: (inner ++ ['\x7d']) :=
    dropLastWhile_append_cons rfl ('\x7b' :: inner) []
  rw [braced?, around, toList_ofList, dropWhile_append_of_pos ho',
    dropWhile_cons_of_neg (by simp), hp, dropLastWhile_append _ hcl, hb]
  rfl

theorem braced?_trim_around (inner : List Char) (first : '\x7b' ∉ front) (hl : '\x7d' ∉ back) :
    braced? (Text.trim (around front inner back)) = some (ofList ('\x7b' :: (inner ++ ['\x7d']))) := by
  rw [around, Text.trim, Text.dropEnds_between (by decide) (by decide)]
  exact braced?_around (fun mem => first ((dropWhile_sublist _).mem mem))
    (fun mem => hl ((dropLastWhile_sublist _ _).mem mem))

theorem unfence_eq_trim (hp : '`' ∉ front) (rest : List Char) :
    unfence (String.ofList (front ++ '\x7b' :: rest)) =
      Text.trim (String.ofList (front ++ '\x7b' :: rest)) := by
  have hs : Text.startsWith (Text.trim (String.ofList (front ++ '\x7b' :: rest))) "```" = false := by
    rw [Text.trim, Text.dropEnds, String.toList_ofList, Text.dropWhile_append_cons (by decide),
      Text.dropLastWhile_append_cons (by decide)]
    cases hsh : front.dropWhile Text.isBlank with
    | nil => simp [Text.startsWith, List.isPrefixOf]
    | cons c cs =>
      have ho : '`' ≠ c := by
        rintro rfl
        exact hp ((List.dropWhile_sublist Text.isBlank).mem (hsh ▸ List.mem_cons_self))
      simp [Text.startsWith, List.isPrefixOf, ho]
  rw [unfence, hs]
  rfl

theorem unfence_fenced (first : '`' ∉ front) (hl : '`' ∉ back) :
    unfence (around ("```".toList ++ front) inner (back ++ "```".toList)) =
      Text.trim (Text.replaceFirst "json" "" (around front inner back)) := by
  have hbl : Text.trim (around ("```".toList ++ front) inner (back ++ "```".toList)) =
      around ("```".toList ++ front) inner (back ++ "```".toList) := by
    have hb : Text.dropLastWhile Text.isBlank (back ++ "```".toList) = back ++ "```".toList := by
      have hl := Text.dropLastWhile_append_cons (p := Text.isBlank) (x := '`') (by decide)
        (back ++ ['`', '`']) []
      simpa [Text.dropLastWhile] using hl
    rw [around, Text.trim, Text.dropEnds_between (by decide) (by decide), hb]
    rfl
  have ht : Text.dropEnds (· == '`') (around ("```".toList ++ front) inner (back ++ "```".toList)) =
      around front inner back := by
    have hb : Text.dropLastWhile (· == '`') (back ++ "```".toList) = back := by
      rw [Text.dropLastWhile_append back (by simp), Text.dropLastWhile,
        Text.dropWhile_beq_of_notMem (by simpa using hl), List.reverse_reverse]
    have hbe : ("```".toList ++ front).dropWhile (· == '`') = front := by
      rw [List.dropWhile_append_of_pos (by simp), Text.dropWhile_beq_of_notMem first]
    rw [around, Text.dropEnds_between (by decide) (by decide), hb, hbe, around]
  have hs : Text.startsWith (around ("```".toList ++ front) inner (back ++ "```".toList)) "```" := by
    simp [Text.startsWith, around]
  rw [unfence, hbl, hs, ht]
  rfl

theorem append_around (pre behind : String) : pre ++ around front inner back ++ behind =
    around (pre.toList ++ front) inner (back ++ behind.toList) := by
  rw [around, around, ← toList_inj]
  simp

theorem unfence_plain (inner : List Char) (first : '`' ∉ front) (hl : '`' ∉ back) :
    unfence ("```" ++ around front inner back ++ "```") =
      Text.trim (Text.replaceFirst "json" "" (around front inner back)) := by
  rw [append_around, unfence_fenced first hl]

theorem unfence_named (first : '`' ∉ front) (hl : '`' ∉ back) :
    unfence ("```json" ++ around front inner back ++ "```") = Text.trim (around front inner back) := by
  have hi : "```json".toList ++ front = "```".toList ++ ("json".toList ++ front) := by simp
  have hr : replaceFirst "json" "" (around ("json".toList ++ front) inner back) =
      around front inner back := by
    simp [replaceFirst, cutText?, cut?, indexOf?, around, List.isPrefixOf]
  rw [append_around, hi, unfence_fenced (by simp [first]) hl, hr]

theorem braced?_unfence (first : '\x7b' ∉ front) (hl : '\x7d' ∉ back) (hp : '`' ∉ front) :
    braced? (unfence (around front inner back)) = some (ofList ('\x7b' :: (inner ++ ['\x7d']))) := by
  rw [around, unfence_eq_trim hp]
  exact braced?_trim_around inner first hl

theorem exists_replaceFirst (ha : 'j' ∉ front) (rest : List Char) :
    ∃ rest', replaceFirst "json" "" (ofList (front ++ '\x7b' :: rest)) =
      ofList (front ++ '\x7b' :: rest') := by
  unfold replaceFirst
  split
  next a b cut =>
    have hp : front ++ '\x7b' :: rest = a.toList ++ ('j' :: ('s' :: 'o' :: 'n' :: b.toList)) := by
      have hs := congrArg toList (eq_of_cutText? cut)
      simpa using hs
    rcases append_eq_append_iff.1 hp with ⟨as, left, right⟩ | ⟨bs, left, right⟩
    · cases as with
      | nil => simp at right
      | cons c as =>
        obtain ⟨rfl, -⟩ := cons.inj right
        refine ⟨as ++ b.toList, ?_⟩
        rw [← toList_inj]
        simp [left]
    · cases bs with
      | nil => simp at right
      | cons c bs =>
        obtain ⟨rfl, -⟩ := cons.inj right
        exact absurd (by simp [left]) ha
  next => exact ⟨rest, rfl⟩

end Around

theorem extract_congr {s t : String} (hs : unfence s = unfence t) : extract s = extract t := by
  unfold extract
  rw [hs]

theorem extract_of_braced? {s document : String} {v : Json}
    (hi : braced? (unfence s) = some document) (hr : read document = .ok v) : extract s = .ok v := by
  unfold extract
  simp only [hi, hr]
  rfl

theorem read_switch (name : String) :
    read (encode (.obj [(name, .bool true)])) = .ok (.obj [(name, .bool true)]) :=
  read_encode (.obj (by simp) (by simpa using .bool true))
    (by simp [isWritable, membersWritable])

/-- An object's text comes out of an answer as the object, also with words around it or in a fence
that names the language. A fence that does not name it takes that word from the object's text. -/
theorem extract_of_read {t : String} {o : Json.Members} (h : Json.read t = .ok (.obj o)) :
    extract t = .ok (.obj o) ∧ extract ("```json" ++ t ++ "```") = .ok (.obj o) ∧
    (∀ before behind : String, (∀ c ∈ before.toList ++ behind.toList, c ∉ ['\x7b', '\x7d', '`']) →
      extract (before ++ t ++ behind) = .ok (.obj o)) ∧
    extract ("```" ++ t ++ "```") = extract (Text.replaceFirst "json" "" t) ∧
    (Text.contains t "json" = false → extract ("```" ++ t ++ "```") = .ok (.obj o)) := by
  obtain ⟨gap, body, gap', text, blank, blank', read⟩ := Json.exists_readAs_of_read h
  obtain ⟨inner, rfl⟩ := read.braces
  obtain rfl : t = around gap inner gap' := by
    rw [around, ← String.toList_inj, text]
    simp
  have absent (c : Char) (solid : Json.isGap c = false) : c ∉ gap ∧ c ∉ gap' :=
    ⟨fun mem => by simp [blank c mem] at solid, fun mem => by simp [blank' c mem] at solid⟩
  have found {s : String} (braces : braced? (unfence s) =
      some (String.ofList ('\x7b' :: (inner ++ ['\x7d'])))) : extract s = .ok (.obj o) :=
    extract_of_braced? braces (Json.read_of_readAs (by simpa using read))
  have inside := braced?_trim_around inner (absent '\x7b' rfl).1 (absent '\x7d' rfl).2
  have fenced := unfence_plain inner (absent '`' rfl).1 (absent '`' rfl).2
  refine ⟨found ?_, found ?_, fun before behind plain => found ?_, ?_, fun none => found ?_⟩
  · exact braced?_unfence (absent '\x7b' rfl).1 (absent '\x7d' rfl).2 (absent '`' rfl).1
  · rw [unfence_named (absent '`' rfl).1 (absent '`' rfl).2, inside]
  · have others (c : Char) (mem : c ∈ ['\x7b', '\x7d', '`']) (solid : Json.isGap c = false) :
        c ∉ before.toList ++ gap ∧ c ∉ gap' ++ behind.toList := by
      simp only [List.mem_append, not_or]
      exact ⟨⟨fun h => plain c (by simp [h]) mem, (absent c solid).1⟩,
        (absent c solid).2, fun h => plain c (by simp [h]) mem⟩
    rw [append_around]
    exact braced?_unfence (others '\x7b' (by simp) rfl).1 (others '\x7d' (by simp) rfl).2
      (others '`' (by simp) rfl).1
  · obtain ⟨rest, shown⟩ := exists_replaceFirst (absent 'j' rfl).1 (inner ++ '\x7d' :: gap')
    have bare := unfence_eq_trim (absent '`' rfl).1 rest
    rw [← shown] at bare
    exact extract_congr (fenced.trans bare.symm)
  · have whole : Text.replaceFirst "json" "" (around gap inner gap') = around gap inner gap' := by
      rw [Text.contains, Option.isSome_eq_false_iff, Option.isNone_iff_eq_none] at none
      rw [Text.replaceFirst, Text.cutText?, Text.cut?, none]
      rfl
    rw [fenced, whole, inside]

theorem extract_ready : Json.read "\x7b\"ready\": true\x7d" = .ok (.obj [("ready", .bool true)]) ∧
    extract ("```json" ++ "\x7b\"ready\": true\x7d" ++ "```") = .ok (.obj [("ready", .bool true)]) ∧
    extract ("Yes: " ++ "\x7b\"ready\": true\x7d" ++ " (json)") = .ok (.obj [("ready", .bool true)]) ∧
    extract ("```" ++ "\x7b\"ready\": true\x7d" ++ "```") = .ok (.obj [("ready", .bool true)]) := by
  have read := read_switch "ready"
  obtain ⟨-, named, between, -, plain⟩ := extract_of_read read
  exact ⟨read, named, between _ _ (by simp), plain (by decide +kernel)⟩

/-- A member that is called as the language loses its name in a fence that does not name it. -/
theorem extract_nameless : Json.read "\x7b\"json\": true\x7d" = .ok (.obj [("json", .bool true)]) ∧
    extract ("```" ++ "\x7b\"json\": true\x7d" ++ "```") = .ok (.obj [("", .bool true)]) := by
  have inside : braced? (unfence ("```" ++ "\x7b\"json\": true\x7d" ++ "```")) =
      some "\x7b\"\": true\x7d" := by
    decide +kernel
  exact ⟨read_switch "json", extract_of_braced? inside (read_switch "")⟩

end Assistant

end Appwright
