import Appwright.Proofs.Program.FrontEnd
import Appwright.Proofs.Store.Schema
import Appwright.Proofs.Text

/-!
# Names that were checked

Names of models, fields, steps and variables stand without quotes in queries and in source. A name
that passes its check is a word, or a word with one line feed after it. A checked name without a line
feed is therefore a word, and every word passes.
-/

namespace Appwright

open List String Text Entries Program Bool

namespace Text

/-- A word: letters, digits and underscores of ASCII, at least one, and no digit in front. -/
structure Word (name : String) : Prop where
  filled : name ≠ ""
  chars : ∀ c ∈ name.toList, c.isAlphanum = true ∨ c = '_'
  front : ∀ c, name.toList.head? = some c → c.isDigit = false

def WordLine (name : String) : Prop :=
  Word name ∨ ∃ word, Word word ∧ name = word ++ "\n"

variable {name : String}

theorem isIdentChars_iff_word : isIdentChars name.toList ↔ Word name := by
  constructor
  · intro hi
    obtain ⟨hf, all⟩ := isIdentRest_of_isIdentChars hi
    refine ⟨fun he => hf (by rw [he]; rfl), fun c mem => ?_, fun c first => ?_⟩
    · have hr := all c mem
      rwa [isIdentRest, or_eq_true, beq_iff_eq] at hr
    · obtain ⟨cs, hs⟩ := head?_eq_some_iff.1 first
      rw [hs, isIdentChars, and_eq_true, or_eq_true, beq_iff_eq] at hi
      rcases hi.1 with hl | rfl
      · exact isDigit_eq_false_of_isAlpha hl
      · decide
  · intro hw
    cases hs : name.toList with
    | nil => exact absurd (toList_eq_nil_iff.1 hs) hw.filled
    | cons c cs =>
      have hc := hw.chars
      rw [hs, forall_mem_cons] at hc
      have hd := hw.front c (by rw [hs]; rfl)
      rw [isIdentChars, and_eq_true, or_eq_true, beq_iff_eq, all_eq_true]
      refine ⟨?_, fun d mem => ?_⟩
      · rcases hc.1 with hl | hli
        · change (c.isAlpha || c.isDigit) at hl
          rw [hd, Bool.or_false] at hl
          exact .inl hl
        · exact .inr hli
      · rw [or_eq_true, beq_iff_eq]
        exact hc.2 d mem

theorem isIdentLine_iff_wordLine : isIdentLine name ↔ WordLine name := by
  rw [isIdentLine, or_eq_true, and_eq_true, beq_iff_eq, isIdentChars_iff_word]
  refine or_congr_right ⟨?_, ?_⟩
  · rintro ⟨hl, hf⟩
    obtain ⟨cs, hs⟩ := getLast?_eq_some_iff.1 hl
    rw [hs, dropLast_concat, ← toList_ofList (l := cs)] at hf
    refine ⟨ofList cs, isIdentChars_iff_word.1 hf, toList_injective ?_⟩
    rw [hs, toList_append, toList_ofList]
    rfl
  · rintro ⟨word, hi, rfl⟩
    have hs : (word ++ "\n").toList = word.toList ++ ['\n'] := toList_append
    rw [hs, getLast?_concat, dropLast_concat]
    exact ⟨rfl, isIdentChars_iff_word.2 hi⟩

theorem WordLine.word_iff (hl : WordLine name) : Word name ↔ '\n' ∉ name.toList := by
  constructor
  · intro word mem
    exact absurd (word.chars '\n' mem) (by decide)
  · intro hu
    rcases hl with word | ⟨word, -, rfl⟩
    · exact word
    · exact absurd (by rw [toList_append]; exact mem_append_right _ (by decide)) hu

end Text

open Text (Word WordLine)

/-! ## Names in applications -/

namespace Spec

theorem checkIdentifier_eq_ok_iff {part name : String} :
    checkIdentifier part name = .ok () ↔ isIdentLine name := by
  refine ⟨eq_true_of_need, fun hi => ?_⟩
  rw [checkIdentifier, hi]
  rfl

/-- The names of the variables that a flow starts with, the ids of its steps, and the names of the
variables that they set. -/
def Flow.checkedNames (flow : Flow) : List String :=
  settingNames flow.vars ++ flow.steps.flatMap fun s => s.id :: settingNames s.assign

def App.checkedNames (app : App) : List String :=
  app.models.flatMap (fun m => m.name :: m.fields.names) ++
    app.actions.flatMap fun a => (a.flow.map Flow.checkedNames).getD []

variable {spec : Json.Members} {app : App}

theorem wordLine_of_mem_flow (hac : check spec = .ok app) {a : Action} (ha : a ∈ app.actions)
    {flow : Flow} (hp : a.flow = some flow) : ∀ name ∈ flow.checkedNames, WordLine name := by
  obtain ⟨hv, hst⟩ := flowChecked_of_accepted hac ha hp
  intro name mem
  refine isIdentLine_iff_wordLine.1 ?_
  rcases mem_append.1 mem with mem | mem
  · exact hv.names name mem
  · obtain ⟨s, hs, mem⟩ := mem_flatMap.1 mem
    have hw := (hst s hs).written
    rcases mem_cons.1 mem with rfl | mem
    · exact hw.id
    · exact hw.assign.names name mem

theorem wordLine_of_accepted (hac : check spec = .ok app) : ∀ name ∈ app.checkedNames, WordLine name := by
  intro name mem
  rcases mem_append.1 mem with mem | mem
  · obtain ⟨m, hm, mem⟩ := mem_flatMap.1 mem
    have hp := modelPassed_of_accepted hac hm
    refine isIdentLine_iff_wordLine.1 ?_
    rcases mem_cons.1 mem with rfl | mem
    · exact hp.name
    · obtain ⟨f, hf, rfl⟩ := mem_map.1 mem
      exact hp.fieldNames f hf
  · obtain ⟨a, ha, mem⟩ := mem_flatMap.1 mem
    cases hpa : a.flow with
    | none => simp [hpa] at mem
    | some flow =>
      rw [hpa] at mem
      exact wordLine_of_mem_flow hac ha hpa name mem

end Spec

/-! ## Names in programs -/

namespace Program

def Node.texts? : Node → Option (List String)
  | .list items => items.mapM Node.text?
  | _ => none

def stepNames? : Node → Option (List String)
  | .obj step => do
    let name ← (get? "name" step).bind Node.text?
    let params ← ((get? "params" step).getD (.list [])).texts?
    return name :: params
  | _ => none

def inputNames? : Option Node → Option (List String)
  | none | some .null => some []
  | some (.obj inputs) => some (names inputs)
  | some _ => none

def allStepNames? : Option Node → Option (List String)
  | none | some .null => some []
  | some (.list steps) => (steps.mapM stepNames?).map flatten
  | some _ => none

def checkedNames? (program : Entries Node) : Option (List String) := do
  let inputs ← inputNames? (get? "inputs" program)
  let steps ← allStepNames? (get? "steps" program)
  return inputs ++ steps

def WordLines (names? : Option (List String)) : Prop :=
  ∃ names, names? = some names ∧ ∀ name ∈ names, WordLine name

theorem WordLines.nil : WordLines (some []) := ⟨[], rfl, nofun⟩

theorem wordLines_of_checkParams {ps : Node} (h : checkParams ps = .ok ()) : WordLines ps.texts? := by
  unfold checkParams at h
  split at h
  · rename_i xs
    split at h
    · cases h
    · rename_i ns hr
      have all := all_eq_true.1 (require_eq_ok_iff.1 h)
      exact ⟨ns, hr, fun name mem => isIdentLine_iff_wordLine.1 (all name mem)⟩
  · cases h

theorem wordLines_of_checkStep {seen : List String} {step : Node} {name : String}
    (h : checkStep seen step = .ok name) : WordLines (stepNames? step) := by
  unfold checkStep at h
  split at h
  · rename_i ms
    obtain ⟨inp, hn, h⟩ := of_bind_ok h
    obtain ⟨_, hp, -⟩ := of_bind_ok h
    obtain ⟨ns, hr, hl⟩ := wordLines_of_checkParams hp
    unfold checkStepName at hn
    split at hn
    · rename_i text hf
      split at hn
      · cases hn
      · rename_i hi
        rw [not_eq_true, not_eq_false'] at hi
        refine ⟨text :: ns, ?_, forall_mem_cons.2 ⟨isIdentLine_iff_wordLine.1 hi, hl⟩⟩
        simp only [stepNames?, hf, hr]
        rfl
    · cases hn
  · cases h

theorem wordLines_of_checkSteps {seen : List String} {ss : List Node}
    (h : checkSteps seen ss = .ok ()) : WordLines ((ss.mapM stepNames?).map flatten) := by
  induction ss generalizing seen with
  | nil => exact .nil
  | cons s ss ih =>
    rw [checkSteps] at h
    obtain ⟨name, first, h⟩ := of_bind_ok h
    obtain ⟨ns, hr, hli⟩ := wordLines_of_checkStep first
    obtain ⟨others, hre, hm⟩ := ih h
    obtain ⟨lists, hl, rfl⟩ := Option.map_eq_some_iff.1 hre
    refine ⟨ns ++ lists.flatten, ?_, fun name mem =>
      (mem_append.1 mem).elim (hli name) (hm name)⟩
    rw [mapM_cons, hr, hl]
    rfl

variable {prog : Entries Node}

theorem wordLines_checkedNames? (hi : WordLines (inputNames? (get? "inputs" prog)))
    (hs : WordLines (allStepNames? (get? "steps" prog))) : WordLines (checkedNames? prog) := by
  obtain ⟨first, hg, hl⟩ := hi
  obtain ⟨snd, hn, hm⟩ := hs
  refine ⟨first ++ snd, ?_, fun name mem =>
    (mem_append.1 mem).elim (hl name) (hm name)⟩
  rw [checkedNames?, hg, hn]
  rfl

theorem wordLines_of_check (h : check prog = .ok ()) : WordLines (checkedNames? prog) := by
  unfold check at h
  split at h
  · cases h
  -- each part is looked at only if those before it passed, the steps after the inputs
  extract_lets ran stepped taken imported at h
  have steps (h : stepped () = .ok ()) : WordLines (allStepNames? (get? "steps" prog)) := by
    unfold stepped at h
    split at h
    case h_1 hm => rw [hm]; exact .nil
    case h_2 hm => rw [hm]; exact .nil
    case h_3 steps hf =>
      obtain ⟨_, hc, -⟩ := of_bind_ok h
      rw [hf]
      exact wordLines_of_checkSteps hc
    case h_4 => cases h
  have inputs (h : taken () = .ok ()) : WordLines (checkedNames? prog) := by
    unfold taken at h
    split at h
    case h_1 hm => exact wordLines_checkedNames? (hm ▸ .nil) (steps h)
    case h_2 hm => exact wordLines_checkedNames? (hm ▸ .nil) (steps h)
    case h_3 inputs hf =>
      obtain ⟨_, hc, h⟩ := of_bind_ok h
      refine wordLines_checkedNames? ⟨names inputs, by rw [hf]; rfl, fun name mem => ?_⟩ (steps h)
      exact isIdentLine_iff_wordLine.1 (checkInputNames_eq_ok_iff.1 hc name mem)
    case h_4 => cases h
  have hi (h : imported () = .ok ()) : WordLines (checkedNames? prog) := by
    unfold imported at h
    split at h
    case h_1 => exact inputs h
    case h_2 =>
      obtain ⟨_, -, h⟩ := of_bind_ok h
      exact inputs h
    case h_3 => cases h
  split at h
  case h_1 => exact hi h
  case h_2 => exact hi h
  case h_3 => exact hi h
  case h_4 => cases h

end Program

/-! ## Checked names are words -/

def notesSpec (model : String) : Json.Members := [
  ("db", .obj [("models", .arr [
    .obj [("name", .str model), ("fields", .obj [("title", .str "text"), ("_done2", .str "bool")])]])]),
  ("api", .obj [("actions", .arr [
    .obj [("name", .str "one"), ("kind", .str "value"), ("value", .obj [("data", .int 1)])],
    .obj [("name", .str "both"), ("kind", .str "flow"), ("flow", .obj [
      ("vars", .obj [("total", .int 0)]),
      ("steps", .arr [.obj [("id", .str "first"), ("use", .str "one"),
        ("set", .obj [("total", .int 1)])]])])]])])]

def greeting (step : String) : Entries Node :=
  [("inputs", .obj [("topic", .str "x")]),
    ("steps", .list [.obj [("name", .str step), ("params", .list [.str "who"]),
      ("return", .str "hello")]]),
    ("run", .obj [("call", .str "greet")])]

theorem check_greeting {step : String} (hi : isIdentLine step) :
    Program.check (greeting step) = .ok () := by
  have hin : isIdentLine "topic" := by decide +kernel
  have hp : isIdentLine "who" := by decide +kernel
  simp [Program.check, greeting, Entries.get?, Program.checkInputNames, Program.require, hin,
    checkSteps, checkStep, checkStepName, hi, checkParams, Node.text?, hp, checkMember, has, checkRun,
    checkExpr, checkKind, Node.child?, bind, Except.bind, pure, Except.pure]

/-- Every name that was checked in an accepted application or in a program that passed is a word, or
a word with a line feed after it. The checks of a name accept just these, and those without a line
feed are the words. -/
theorem checkedNames_are_wordLines (spec : Json.Members) (app : Spec.App)
    (accepted : Spec.check spec = .ok app) :
    (∀ name ∈ app.checkedNames, WordLine name) ∧
    (∀ program : Entries Program.Node, Program.check program = .ok () →
      ∃ names, Program.checkedNames? program = some names ∧ ∀ name ∈ names, WordLine name) ∧
    ∀ name : String, (WordLine name → (Word name ↔ '
' ∉ name.toList)) ∧
      ∀ part, (Spec.checkIdentifier part name = .ok () ↔ WordLine name) ∧
        (Store.checkIdentifier part name = .ok () ↔ WordLine name) := by
  refine ⟨Spec.wordLine_of_accepted accepted, fun program => Program.wordLines_of_check,
    fun name => ⟨Text.WordLine.word_iff, fun part => ⟨?_, ?_⟩⟩⟩
  · rw [← Text.isIdentLine_iff_wordLine]
    exact Spec.checkIdentifier_eq_ok_iff
  · rw [← Text.isIdentLine_iff_wordLine]
    exact Store.checkIdentifier_eq_ok_iff

theorem notes_names_are_words : ∃ app, Spec.check (notesSpec "Todo") = .ok app ∧
    app.checkedNames = ["Todo", "title", "_done2", "total", "first", "total"] ∧
    (∀ name ∈ app.checkedNames, WordLine name) ∧
    Program.checkedNames? (greeting "greet") = some ["topic", "greet", "who"] ∧
    ∀ name ∈ ["topic", "greet", "who"], WordLine name := by
  have read : (Spec.check (notesSpec "Todo")).toOption.map Spec.App.checkedNames =
      some ["Todo", "title", "_done2", "total", "first", "total"] := by
    decide +kernel
  have passed : Program.check (greeting "greet") = .ok () := check_greeting (by decide +kernel)
  obtain ⟨app, accepted, named⟩ := exists_ok_of_toOption read
  obtain ⟨inApp, inPrograms, -⟩ := checkedNames_are_wordLines _ app accepted
  obtain ⟨names, shown, lines⟩ := inPrograms (greeting "greet") passed
  have same : Program.checkedNames? (greeting "greet") = some ["topic", "greet", "who"] := rfl
  cases shown.symm.trans same
  exact ⟨app, accepted, named, inApp, same, lines⟩

/-- A model and a step whose names end in a line feed pass. -/
theorem exists_checked_not_word :
    (∃ app, Spec.check (notesSpec "Todo\n") = .ok app ∧
      ∃ name ∈ app.checkedNames, ¬ Word name) ∧
    Program.check (greeting "greet\n") = .ok () ∧
      ∃ names, Program.checkedNames? (greeting "greet\n") = some names ∧
        ∃ name ∈ names, ¬ Word name := by
  refine ⟨?_, check_greeting (by decide +kernel), _, rfl, "greet\n", by simp, fun word => ?_⟩
  · have read : (Spec.check (notesSpec "Todo\n")).toOption.map
        (fun app => app.checkedNames.head?) = some (some "Todo\n") := by
      decide +kernel
    obtain ⟨app, accepted, first⟩ := exists_ok_of_toOption read
    refine ⟨app, accepted, "Todo\n", List.mem_of_head? first, fun word => ?_⟩
    exact absurd (word.chars '\n' (by decide)) (by decide)
  · exact absurd (word.chars '\n' (by decide)) (by decide)

end Appwright
