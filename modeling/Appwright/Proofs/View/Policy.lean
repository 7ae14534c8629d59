import Appwright.Proofs.Spec.Accepted
import Appwright.Proofs.Text
import Appwright.View.Theme

/-!
# Policies of pages

A page says where it may load from in a header: directives between semicolons, and in each a name and
sources between blanks. `readPolicy` reads a header so. The policy of an accepted application has the
built-in directives, and the authorities of its style sheets as further sources of styles. It is read
as that exactly if no authority holds a semicolon or a blank (`policy_reads_iff`), which the check of
addresses lets pass.
-/

namespace Appwright

open List String Text

namespace Text

theorem splitAtElem_intercalate {pre piece : List Char} {ps : List (List Char)}
    (hb : ';' ∉ pre) (hf : ∀ p ∈ piece :: ps, ';' ∉ p) :
    splitAtElem ';' (pre ++ [';', ' '].intercalate (piece :: ps)) =
      (pre ++ piece) :: ps.map (' ' :: ·) := by
  induction ps generalizing pre piece with
  | nil =>
    rw [List.intercalate_singleton]
    exact splitAtElem_of_not_mem (by simpa [hb] using hf)
  | cons next ps ih =>
    rw [forall_mem_cons] at hf
    have hj : pre ++ [';', ' '].intercalate (piece :: next :: ps) =
        (pre ++ piece) ++ ';' :: ([' '] ++ [';', ' '].intercalate (next :: ps)) := by
      simp [List.intercalate_cons_cons]
    rw [hj, splitAtElem_append (by simp [hb, hf.1]), ih (by decide) hf.2]
    rfl

section

variable {p : Char → Bool} {sep : Char} {cur word : List Char}

theorem runsFrom_append (stop : p sep = false) (hs : ∀ c ∈ word, p c) (some : cur ≠ [] ∨ word ≠ [])
    (rest : List Char) : runsFrom p cur word = [cur.reverse ++ word] ∧
      runsFrom p cur (word ++ sep :: rest) = (cur.reverse ++ word) :: runsFrom p [] rest := by
  induction word generalizing cur with
  | nil =>
    have hf : cur.isEmpty = false := by simpa using some
    simp [runsFrom, hf, stop]
  | cons c word ih =>
    rw [forall_mem_cons] at hs
    have hw := @ih (c :: cur) hs.2 (.inl (cons_ne_nil _ _))
    simpa [runsFrom, hs.1] using hw

theorem runsFrom_intercalate (stop : p sep = false) {ws : List (List Char)}
    (hs : ∀ w ∈ word :: ws, w ≠ [] ∧ ∀ c ∈ w, p c) :
    runsFrom p [] ([sep].intercalate (word :: ws)) = word :: ws := by
  induction ws generalizing word with
  | nil =>
    rw [forall_mem_singleton] at hs
    rw [List.intercalate_singleton, (runsFrom_append stop hs.2 (.inr hs.1) []).1]
    rfl
  | cons next ws ih =>
    rw [forall_mem_cons] at hs
    rw [List.intercalate_cons_cons, List.append_assoc]
    exact ((runsFrom_append stop hs.1.2 (.inr hs.1.1) _).2).trans (congrArg _ (ih hs.2))

end

end Text

/-! ## Style sheets -/

namespace Spec

theorem parse_of_checkCssUrls {raw urls : List String} (h : checkCssUrls raw = .ok urls) :
    ∀ url ∈ urls, Text.startsWith url "/" ∨ ∃ u, Url.parse url = .ok u := by
  induction raw generalizing urls with
  | nil =>
    cases h
    exact forall_mem_nil _
  | cons first raw ih =>
    rw [checkCssUrls] at h
    split at h
    · exact ih h
    split at h
    · simp only [except_bind_eq_ok_iff] at h
      obtain ⟨u, hp, _, -, rest, hc, ⟨⟩⟩ := h
      exact forall_mem_cons.2 ⟨.inr ⟨u, mapError_eq_ok hp⟩, ih hc⟩
    next hpa =>
      obtain ⟨rest, hc, ⟨⟩⟩ := of_bind_ok h
      exact forall_mem_cons.2 ⟨.inl (by simpa using hpa), ih hc⟩

theorem exists_checkCssUrls {ui : Json.Members} {look : Look} (h : checkLook ui = .ok look) :
    ∃ raw, checkCssUrls raw = .ok look.cssUrls := by
  unfold checkLook at h
  cases hg : member "theme" .null ui with
  | null =>
    rw [hg] at h
    cases h
    exact ⟨[], rfl⟩
  | _ =>
    rw [hg] at h
    obtain ⟨theme, -, h⟩ := of_bind_ok h
    extract_lets rest at h
    have hr : ∃ raw, rest raw = .ok look := by
      split at h
      · exact ⟨_, h⟩
      · cases h
    obtain ⟨raw, h⟩ := hr
    obtain ⟨urls, hc, h⟩ := of_bind_ok h
    refine ⟨raw, ?_⟩
    extract_lets more at h
    have hs : ∃ cfg, more cfg = .ok look := by
      split at h
      · exact ⟨_, h⟩
      · obtain ⟨cfg, -, h⟩ := of_bind_ok h
        exact ⟨_, h⟩
    obtain ⟨cfg, h⟩ := hs
    obtain ⟨classes, -, ⟨⟩⟩ := of_bind_ok h
    exact hc

theorem parse_of_accepted {spec : Json.Members} {app : App} (ha : check spec = .ok app) :
    ∀ url ∈ app.cssUrls, Text.startsWith url "/" ∨ ∃ u, Url.parse url = .ok u := by
  unfold check at ha
  simp only [except_bind_eq_ok_iff] at ha
  obtain ⟨_, -, _, -, _, -, _, -, _, -, _, -, _, -, _, -, _, -, _, -, _, -, ui, -, _, -, _, -, look, hs,
    _, -, _, -, _, -, _, -, ⟨⟩⟩ := ha
  obtain ⟨raw, hc⟩ := exists_checkCssUrls hs
  exact parse_of_checkCssUrls hc

end Spec

/-! ## Policies -/

namespace View

/-- Sources of styles that the style sheets of an application add. -/
def IsOrigin (urls : List String) (origin : String) : Prop :=
  ∃ url ∈ urls, ∃ u, Url.parse url = .ok u ∧ u.scheme = "https" ∧ origin = secureStart ++ u.authority

variable {urls : List String} {origin url : String} {d : String × List String}

theorem IsOrigin.mono {more : List String} (h : IsOrigin urls origin)
    (sub : urls ⊆ more) : IsOrigin more origin := by
  obtain ⟨url, mem, hp⟩ := h
  exact ⟨url, sub mem, hp⟩

theorem IsOrigin.ne_empty (h : IsOrigin urls origin) :
    origin ≠ "" := by
  obtain ⟨_, -, u, -, -, rfl⟩ := h
  intro he
  have hc := congrArg toList he
  rw [toList_append] at hc
  exact absurd hc (append_ne_nil_of_left_ne_nil (by decide) _)

theorem not_startsWith_secure (hp : Text.startsWith url "/") :
    Text.startsWith url secureStart = false := by
  unfold Text.startsWith at hp ⊢
  cases hc : url.toList with
  | nil => rfl
  | cons c cs =>
    rw [hc] at hp
    have hs : '/' = c := by simpa using hp
    rw [← hs]
    rfl

theorem styleOrigin?_cases
    (hf : Text.startsWith url "/" ∨ ∃ u, Url.parse url = .ok u) : styleOrigin? url = .ok none ∨
      ∃ origin, styleOrigin? url = .ok (some origin) ∧ IsOrigin [url] origin := by
  unfold styleOrigin?
  rcases hf with hpa | ⟨u, hp⟩
  · left
    rw [not_startsWith_secure hpa]
    rfl
  · split
    · exact .inl rfl
    · rw [hp]
      change ite _ _ _ = _ ∨ ∃ _, ite _ _ _ = _ ∧ _
      split
      next hs =>
        rw [Bool.and_eq_true, beq_iff_eq] at hs
        exact .inr ⟨_, rfl, url, mem_singleton_self url, u, hp, hs.1, rfl⟩
      · exact .inl rfl

/-- The style sheets that were checked add authorities to the sources, and nothing else. -/
theorem exists_styleSources (srcs : List String)
    (hfi : ∀ url ∈ urls, Text.startsWith url "/" ∨ ∃ u, Url.parse url = .ok u) :
    ∃ origins, styleSources srcs urls = .ok (srcs ++ origins) ∧ ∀ o ∈ origins, IsOrigin urls o := by
  induction urls generalizing srcs with
  | nil => exact ⟨[], by rw [append_nil]; rfl, forall_mem_nil _⟩
  | cons url urls ih =>
    rw [forall_mem_cons] at hfi
    have hl (srcs : List String) : ∃ origins, styleSources srcs urls = .ok (srcs ++ origins) ∧
          ∀ o ∈ origins, IsOrigin (url :: urls) o := by
      obtain ⟨origins, hr, hf⟩ := ih srcs hfi.2
      exact ⟨origins, hr, fun o mem => (hf o mem).mono (subset_cons_self url urls)⟩
    rw [styleSources]
    rcases styleOrigin?_cases hfi.1 with none | ⟨origin, here, hf⟩
    · rw [none]
      exact hl srcs
    · rw [here]
      change ∃ origins, styleSources (if srcs.contains origin then srcs
        else srcs ++ [origin]) urls = _ ∧ _
      split
      · exact hl srcs
      · obtain ⟨origins, hr, hre⟩ := hl (srcs ++ [origin])
        rw [List.append_assoc] at hr
        exact ⟨origin :: origins, hr, forall_mem_cons.2 ⟨hf.mono (by simp), hre⟩⟩

/-! ### Reading a policy -/

/-- The directives of a header, each as its words. -/
def readPolicy (text : String) : List (List String) :=
  (splitChar ';' text).map words

def directiveWords (d : String × List String) : List String :=
  d.1 :: d.2

def isPlain (word : String) : Bool :=
  word != "" && word.toList.all fun c => c != ';' && !isBlank c

theorem isPlain_iff {word : String} : isPlain word ↔
    word.toList ≠ [] ∧ ∀ c ∈ word.toList, c ≠ ';' ∧ isBlank c = false := by
  simp [isPlain]

theorem toList_directiveText {name : String} {srcs : List String} (some : srcs ≠ []) :
    (directiveText (name, srcs)).toList = [' '].intercalate ((name :: srcs).map toList) := by
  obtain ⟨first, rest, rfl⟩ := exists_cons_of_ne_nil some
  simp [directiveText, String.toList_intercalate, List.intercalate_cons_cons]

theorem words_directiveText (some : d.2 ≠ [])
    (hp : ∀ w ∈ directiveWords d, isPlain w) : Text.words (directiveText d) = directiveWords d := by
  obtain ⟨name, srcs⟩ := d
  rw [words, toList_directiveText some, map_cons, runsFrom_intercalate (by decide), ← map_cons, List.map_map]
  · simp [directiveWords, Function.comp_def]
  · rw [← map_cons, forall_mem_map]
    intro w mem
    obtain ⟨hf, hs⟩ := isPlain_iff.1 (hp w mem)
    exact ⟨hf, fun c hi => by rw [(hs c hi).2, Bool.not_false]⟩

theorem not_mem_directiveText (some : d.2 ≠ [])
    (hp : ∀ w ∈ directiveWords d, isPlain w) : ';' ∉ (directiveText d).toList := by
  obtain ⟨name, srcs⟩ := d
  rw [toList_directiveText some]
  intro mem
  rcases mem_intercalate mem with ho | ⟨word, hf, hi⟩
  · exact absurd ho (by decide)
  · obtain ⟨w, hw, rfl⟩ := mem_map.1 hf
    exact ((isPlain_iff.1 (hp w hw)).2 _ hi).1 rfl

theorem plain_directives {styles : List String} (some : styles ≠ []) (hp : ∀ s ∈ styles, isPlain s) :
    ∀ d ∈ directives styles, d.2 ≠ [] ∧ ∀ w ∈ directiveWords d, isPlain w := by
  have hb : (directives defaultStyles).all
      (fun d => !d.2.isEmpty && (directiveWords d).all isPlain) := by decide +kernel
  intro d mem
  have hpa : d = ("style-src", styles) ∨ d ∈ directives defaultStyles := by
    simp only [directives, mem_cons] at mem ⊢
    tauto
  rcases hpa with rfl | hf
  · exact ⟨some, forall_mem_cons.2 ⟨show isPlain "style-src" by decide, hp⟩⟩
  · simpa using all_eq_true.1 hb d hf

theorem readPolicy_of_plain {ds : List (String × List String)}
    (hp : ∀ e ∈ d :: ds, e.2 ≠ [] ∧ ∀ w ∈ directiveWords e, isPlain w) :
    readPolicy (intercalate "; " ((d :: ds).map directiveText)) = (d :: ds).map directiveWords := by
  have hf : ∀ p ∈ (d :: ds).map (fun e => (directiveText e).toList), ';' ∉ p := by
    rw [forall_mem_map]
    exact fun e mem => not_mem_directiveText (hp e mem).1 (hp e mem).2
  have hr : ∀ e ∈ d :: ds, words (directiveText e) = directiveWords e :=
    fun e mem => words_directiveText (hp e mem).1 (hp e mem).2
  have split := splitAtElem_intercalate (not_mem_nil (a := ';')) hf
  rw [readPolicy, splitChar, toList_intercalate, map_map (f := directiveText)]
  refine (congrArg (fun ps => (ps.map ofList).map words) split).trans ?_
  rw [← map_congr_left hr]
  -- The blank in front of a later directive is no part of its words.
  simp [words, runsFrom, Function.comp_def, show isBlank ' ' by decide]

theorem plain_of_mem_readPolicy {text : String} {d : List String} (mem : d ∈ readPolicy text) :
    ∀ w ∈ d, ∀ c ∈ w.toList, c ≠ ';' ∧ isBlank c = false := by
  obtain ⟨_, cut, rfl⟩ := mem_map.1 mem
  obtain ⟨p, split, rfl⟩ := mem_map.1 cut
  intro w hr c hi
  obtain ⟨word, hf, rfl⟩ := mem_map.1 hr
  rw [toList_ofList] at hi hf
  obtain ⟨hv, old | here⟩ := (mem_runsFrom (forall_mem_nil _) hf).2 c hi
  · exact absurd old not_mem_nil
  · refine ⟨?_, by simpa using hv⟩
    rintro rfl
    exact not_mem_of_mem_splitAtElem split here

/-- What the style sheets of an application add to its policy: authorities, as sources of styles. The
policy is read as the built-in directives with these sources exactly if none of them holds a
semicolon or a blank. -/
theorem policy_reads_iff {spec : Json.Members} {app : Spec.App} (accepted : Spec.check spec = .ok app) :
    ∃ origins text, policy app = .ok text ∧ (∀ o ∈ origins, IsOrigin app.cssUrls o) ∧
      text = String.intercalate "; " ((directives (defaultStyles ++ origins)).map directiveText) ∧
      (readPolicy text = (directives (defaultStyles ++ origins)).map directiveWords ↔
        ∀ o ∈ origins, ∀ c ∈ o.toList, c ≠ ';' ∧ Text.isBlank c = false) := by
  obtain ⟨origins, added, found⟩ := exists_styleSources defaultStyles (Spec.parse_of_accepted accepted)
  refine ⟨origins, _, by rw [policy, added]; rfl, found, rfl, fun same o mem => ?_, fun plain => ?_⟩
  · have styled : directiveWords ("style-src", defaultStyles ++ origins) ∈
        (directives (defaultStyles ++ origins)).map directiveWords :=
      List.mem_map_of_mem (by simp [directives])
    rw [← same] at styled
    exact plain_of_mem_readPolicy styled o (by simp [directiveWords, mem])
  · refine readPolicy_of_plain (plain_directives (by simp [defaultStyles]) fun s mem => ?_)
    rcases List.mem_append.mp mem with fixed | added
    · have builtIn : defaultStyles.all isPlain = true := by decide +kernel
      exact List.all_eq_true.mp builtIn s fixed
    · have filled := (found s added).ne_empty
      exact isPlain_iff.mpr ⟨by simpa using filled, plain s added⟩

def styled (url : String) : Json.Members :=
  [("name", .str "notes"), ("db", .obj [("path", .str "notes.db"), ("models", .arr [])]),
    ("ui", .obj [("theme", .obj [("css_urls", .arr [.str url])])])]

theorem styled_reads : ∃ app, Spec.check (styled "https://cdn.example.com/a.css") = .ok app ∧
    ∃ origins text, policy app = .ok text ∧ (∀ o ∈ origins, IsOrigin app.cssUrls o) ∧
      text = String.intercalate "; " ((directives (defaultStyles ++ origins)).map directiveText) ∧
      (readPolicy text = (directives (defaultStyles ++ origins)).map directiveWords ↔
        ∀ o ∈ origins, ∀ c ∈ o.toList, c ≠ ';' ∧ Text.isBlank c = false) := by
  have passed : (Spec.check (styled "https://cdn.example.com/a.css")).toOption.map
      (fun app => app.cssUrls) = some ["https://cdn.example.com/a.css"] := by decide +kernel
  obtain ⟨app, accepted, -⟩ := exists_ok_of_toOption passed
  exact ⟨app, accepted, policy_reads_iff accepted⟩

/-- A style sheet whose authority holds a semicolon ends the sources of styles, and begins a
directive of its own. -/
theorem styled_adds_directive : ∃ app text,
    Spec.check (styled "https://cdn.example.com;script-src 'unsafe-eval'/a.css") = .ok app ∧
      policy app = .ok text ∧ (readPolicy text).length = 8 ∧
      ["script-src", "'unsafe-eval'"] ∈ readPolicy text := by
  have passed : (Spec.check (styled "https://cdn.example.com;script-src 'unsafe-eval'/a.css")).toOption.map
      (fun app => (policy app).toOption.map readPolicy) = some (some
        [["default-src", "'self'"],
          ["script-src", "'self'", "https://cdn.tailwindcss.com", "'unsafe-inline'"],
          ["style-src", "'self'", "https://fonts.googleapis.com", "'unsafe-inline'",
            "https://cdn.example.com"],
          ["script-src", "'unsafe-eval'"], ["font-src", "https://fonts.gstatic.com"],
          ["img-src", "'self'", "data:"], ["connect-src", "'self'", "https://cdn.tailwindcss.com"],
          ["frame-ancestors", "'none'"]]) := by decide +kernel
  obtain ⟨app, accepted, read⟩ := exists_ok_of_toOption passed
  obtain ⟨text, made, read⟩ := exists_ok_of_toOption read
  exact ⟨app, text, accepted, made, by simp [read], by simp [read]⟩

end View

end Appwright
