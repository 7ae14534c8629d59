import Appwright.Proofs.Program.Report
import Appwright.Proofs.Target.Arithmetic

/-!
# Programs that run arithmetic

A program that runs an expression of whole numbers is compiled to a fixed opening and one line that
keeps the value of the expression. The result is the expression's `reading`, so it is the value of
the document wherever no negative numeral is raised to an even power. An expression that is nested
too deep, or one with a numeral that has no text, is refused.
-/

namespace Appwright

open List String Entries Option Decimal

namespace Program

open Target

inductive Stands : Node → Arith → Prop
  | numeral (n : Int) : Stands (.int n) (.lit n)
  | literal (n : Int) : Stands (.obj [("literal", .int n)]) (.lit n)
  | op {info : Entries Node} {l r : Node} {o : Operation} {a b : Arith}
      (sign : info.get? "op" = some (.str o.sign)) (left : info.get? "left" = some l)
      (right : info.get? "right" = some r) (first : Stands l a) (second : Stands r b) :
      Stands (.obj [("binop", .obj info)]) (.op o a b)
  | pow {info : Entries Node} {l r : Node} {a : Arith} {k : Nat}
      (sign : info.get? "op" = some (.str "**")) (left : info.get? "left" = some l)
      (right : info.get? "right" = some r) (base : Stands l a) (exponent : Stands r (.lit k)) :
      Stands (.obj [("binop", .obj info)]) (.pow a k)

variable {ms : Entries Node} {name : String}

theorem member_of_get? {v : Node} (hf : get? name ms = some v) :
    ∃ h, Node.member name (.obj ms) = .ok ⟨v, h⟩ := by
  have hc : Node.child? name ms = some ⟨v, Node.sizeOf_get? hf⟩ := by
    unfold Node.child?
    split
    · simp_all
    · rename_i w h
      obtain rfl : w = v := some.inj (h.symm.trans hf)
      rfl
  rw [Node.member, hc]
  exact ⟨_, rfl⟩

theorem emit_binop {info : Entries Node} {l r : Node} {sign left right : String}
    (hsign : info.get? "op" = some (.str sign)) (hleft : info.get? "left" = some l)
    (hright : info.get? "right" = some r) (first : emit l = .ok (.str left))
    (hs : emit r = .ok (.str right)) :
    emit (.obj [("binop", .obj info)]) =
      .ok (.str ("(" ++ left ++ " " ++ sign ++ " " ++ right ++ ")")) := by
  obtain ⟨_, hl⟩ := member_of_get? hleft
  obtain ⟨_, hr⟩ := member_of_get? hright
  obtain ⟨_, ho⟩ := member_of_get? hsign
  simp [emit, emitRest, Entries.get?, Node.child?, hl, hr, ho, bind, Except.bind,
    pure, Except.pure, first, hs, Node.display]

theorem emit_of_stands {node : Node} {a : Arith} (hst : Stands node a) : emit node = .ok (.str a.text) := by
  induction hst with
  | numeral n => simp [emit, Node.literal, Arith.text]
  | literal n => simp [emit, Entries.get?, Node.literal, Arith.text]
  | op hsi left right _ _ first hs => rw [emit_binop hsi left right first hs, Arith.text]
  | pow hsi left right _ _ first hs =>
    rw [emit_binop hsi left right first hs, Arith.text, Arith.text]
    rfl

/-! ## Compiling -/

theorem child?_eq_none (ha : get? name ms = none) : Node.child? name ms = none := by
  unfold Node.child?
  split
  · rfl
  · simp_all

theorem bodyOf_eq_nil (ha : get? name ms = none) : ((Node.obj ms).bodyOf name).1 = [] := by
  rw [Node.bodyOf, child?_eq_none ha]

def resultLine (a : Arith) : String :=
  "__vbl_result__ = " ++ a.text

def arithmeticSource (a : Arith) : String :=
  intercalate "\n" (openingLines ++ [resultLine a]) ++ "\n"

theorem toList_resultLine (a : Arith) :
    (resultLine a).toList = "__vbl_result__ = ".toList ++ a.text.toList :=
  toList_append

theorem intercalate_openingLines (line : String) : intercalate "\n" (openingLines ++ [line]) =
      "from vibelang.runtime import step" ++ "\n" ++ "import vibelang.std as vbl" ++ "\n" ++ "" ++
        "\n" ++ line := rfl

section Compiling

variable {node : Node} {a : Arith} (hst : Stands node a)

include hst

theorem check_of_stands : check [("run", node)] = .ok () := by
  cases hst <;> simp [check, checkRun, checkExpr, checkKind, checkMember, Entries.get?, Entries.has, Node.child?,
    bind, Except.bind]

theorem emitRun_of_stands : emitRun node = .ok [.str (resultLine a)] := by
  have hr : emitRun.assignResult node = .ok [.str (resultLine a)] := by
    rw [emitRun.assignResult, emit_of_stands hst]
    rfl
  cases hst <;> exact hr

theorem generate_of_stands : generate [("run", node)] = .ok (arithmeticSource a) := by
  obtain ⟨c, hl, hv⟩ := a.exists_getLast?_text
  have he : Text.trimBack (intercalate "\n" (openingLines ++ [resultLine a])) =
      intercalate "\n" (openingLines ++ [resultLine a]) := by
    have hli : (resultLine a).toList.getLast? = some c := by
      rw [toList_resultLine, getLast?_append, hl, some_or]
    refine Text.trimBack_of_getLast? ?_ hv
    rw [intercalate_openingLines, toList_append, getLast?_append, hli, some_or]
  have run : (get? "run" [("run", node)]).getD .null = node := rfl
  have ins : get? "inputs" [("run", node)] = none := rfl
  have hi : ((Node.obj [("run", node)]).bodyOf "imports").1 = [] := bodyOf_eq_nil rfl
  have hs : ((Node.obj [("run", node)]).bodyOf "steps").1 = [] := bodyOf_eq_nil rfl
  rw [generate, hi, hs, run, emitRun_of_stands hst, ins]
  simp only [emitSteps, bind, Except.bind, pure, Except.pure, joinTexts, Except.map,
    isEmpty_nil, if_true, inputLines, bind_none, getD_none, append_nil]
  rw [he, arithmeticSource]

theorem compile_of_stands : compile [("run", node)] = .ok (arithmeticSource a) := by
  rw [compile, check_of_stands hst, generate_of_stands hst]
  rfl

end Compiling

/-! ## Reading the source -/

section Reading

variable (a : Arith)

theorem splitChar_arithmeticSource :
    Text.splitChar '\n' (arithmeticSource a) = openingLines ++ [resultLine a, ""] := by
  have hs : (arithmeticSource a).toList = "from vibelang.runtime import step".toList ++ '\n' ::
      ("import vibelang.std as vbl".toList ++ '\n' ::
        ([] ++ '\n' :: ((resultLine a).toList ++ '\n' :: []))) := by
    simp [arithmeticSource, intercalate_openingLines]
  have hu : '\n' ∉ (resultLine a).toList := by
    simp [toList_resultLine, a.lineFeed_not_mem_text]
  rw [Text.splitChar, hs, Text.splitAtElem_append (by decide),
    Text.splitAtElem_append (by decide), Text.splitAtElem_append (by decide), Text.splitAtElem_append hu]
  simp [openingLines, Text.splitAtElem]

theorem tokens_resultLine : tokens (resultLine a) = .name "__vbl_result__" :: .op "=" :: a.tokens := by
  have ht (cs : List Char) : wordsFrom 0 ("__vbl_result__ = ".toList ++ cs) =
      .name "__vbl_result__" :: .op "=" :: wordsFrom 0 cs := rfl
  have he : EndsOperand [] := by simp [EndsOperand]
  have hw := a.wordsFrom_text he
  rw [append_nil, wordsFrom, append_nil] at hw
  rw [tokens, toList_resultLine, ht, hw]

theorem simple?_resultLine :
    simple? (tokens (resultLine a)) = some [.assign ["__vbl_result__"] a.expr] := by
  have ha : simple? (.name "__vbl_result__" :: .op "=" :: a.tokens) =
      (expr? a.tokens).map fun e => [.assign ["__vbl_result__"] e] := rfl
  rw [tokens_resultLine, ha, a.expr?_tokens, map_some]

theorem blocksOf_arithmeticSource : blocksOf (arithmeticSource a) =
      [.mk "from vibelang.runtime import step" [], .mk "import vibelang.std as vbl" [],
        .mk (resultLine a) []] := by
  have hs : (resultLine a).toList = '_' :: ("_vbl_result__ = ".toList ++ a.text.toList) := by
    simp [toList_resultLine]
  have hr : measured (resultLine a) = (0, resultLine a) := measured_of_head? (by rw [hs]; rfl) (by decide)
  have hf : (resultLine a).isEmpty = false := by
    rw [← Bool.not_eq_true, String.isEmpty_iff]
    rintro he
    simp [he] at hs
  have hm : (openingLines ++ [resultLine a, ""]).map measured =
      (openingLines ++ [resultLine a, ""]).map fun line => (0, line) := by
    rw [map_append, map_cons, hr]
    rfl
  have hk : ((openingLines ++ [resultLine a, ""]).map fun line => (0, line)).filter
        (fun l => !l.2.isEmpty) =
      ["from vibelang.runtime import step", "import vibelang.std as vbl", resultLine a].map
        fun line => (0, line) := by
    simp [openingLines, hf]
  rw [blocksOf, splitChar_arithmeticSource, hm, hk, blocks_flat]
  rfl

def arithmeticStmts (a : Arith) : List Target.Stmt :=
  [.use "step" "vibelang.runtime.step", .use "vbl" "vibelang.std",
    .assign ["__vbl_result__"] a.expr]

theorem statements?_arithmeticSource : statements? (arithmeticSource a) = some (arithmeticStmts a) := by
  obtain ⟨f, hf⟩ : ∃ f, blockFuel (arithmeticSource a) = f + 4 := by
    have hp : 0 < (arithmeticSource a).length := by
      rw [arithmeticSource, String.length_append]
      exact Nat.lt_add_left _ (by decide)
    exact ⟨blockFuel (arithmeticSource a) - 4, by rw [blockFuel]; omega⟩
  have first (rest : List Block) : readBlocks (f + 4) (.mk "from vibelang.runtime import step" [] :: rest) =
        (readBlocks (f + 3) rest).bind fun more =>
          some (.use "step" "vibelang.runtime.step" :: more) := rfl
  have hs (rest : List Block) : readBlocks (f + 3) (.mk "import vibelang.std as vbl" [] :: rest) =
        (readBlocks (f + 2) rest).bind fun more =>
          some (.use "vbl" "vibelang.std" :: more) := rfl
  have hr : readBlocks (f + 2) [.mk (resultLine a) []] =
      (simple? (tokens (resultLine a))).bind fun ss => some (ss ++ []) := by
    rw [readBlocks.eq_def]
    dsimp only
    rw [tokens_resultLine]
    rfl
  rw [statements?, blocksOf_arithmeticSource, hf, first, hs, hr, simple?_resultLine]
  rfl

theorem any_isUnwritable_lines :
    (((openingLines ++ [resultLine a, ""]).map tokens).any fun ts => ts.any isUnwritable) =
      a.numerals.any fun n => !hasText n := by
  have ho : ((openingLines.map tokens).any fun ts => ts.any isUnwritable) = false := by decide
  have hr : (tokens (resultLine a)).any isUnwritable = a.tokens.any isUnwritable := by
    rw [tokens_resultLine]
    rfl
  have hl : (tokens "").any isUnwritable = false := rfl
  rw [map_append, any_append, ho, map_cons, any_cons, hr, a.any_isUnwritable_tokens]
  simp [hl]

theorem findIdx?_nested_lines : ((openingLines ++ [resultLine a, ""]).map tokens).findIdx?
        (fun ts => maxNesting < nesting 0 ts) =
      if maxNesting < a.height then some 3 else none := by
  have hr : nesting 0 (tokens (resultLine a)) = a.height := by
    have hw : nesting 0 (tokens (resultLine a)) = nesting 0 (a.tokens ++ []) := by
      rw [tokens_resultLine, nesting_plain rfl, nesting_plain rfl, append_nil]
    rw [hw, a.nesting_tokens]
    simp [nesting]
  have ho : (openingLines.map tokens).findIdx? (fun ts => maxNesting < nesting 0 ts) = none := by
    decide
  have hl : ¬ maxNesting < nesting 0 (tokens "") := by decide
  rw [map_append, findIdx?_append, ho, map_cons, findIdx?_cons, hr]
  by_cases hd : maxNesting < a.height
  · simp [hd, openingLines]
  · simp [hd, findIdx?_cons, hl]

theorem readSource_arithmeticSource (hw : a.Writable) :
    readSource (arithmeticSource a) = .ok (arithmeticStmts a) := by
  have hwi : overrun? (arithmeticSource a) = none := by
    have ht : (a.numerals.any fun n => !hasText n) = false := by
      simpa using hw.2
    have hs : ¬ maxNesting < a.height := not_lt.2 hw.1
    rw [overrun?, splitChar_arithmeticSource, any_isUnwritable_lines, ht, findIdx?_nested_lines, if_neg hs]
    rfl
  rw [readSource, hwi, statements?_arithmeticSource]

theorem exists_readSource_error (hu : ¬ a.Writable) : ∃ e, readSource (arithmeticSource a) = .error e := by
  obtain ⟨e, hb⟩ : ∃ e, overrun? (arithmeticSource a) = some e := by
    rw [overrun?, splitChar_arithmeticSource, any_isUnwritable_lines, findIdx?_nested_lines]
    cases ht : a.numerals.any fun n => !hasText n with
    | true => exact ⟨_, rfl⟩
    | false =>
      have hd : maxNesting < a.height := by
        by_contra hs
        exact hu ⟨not_lt.1 hs, by simpa using ht⟩
      rw [if_pos hd]
      exact ⟨_, rfl⟩
  rw [readSource, hb]
  exact ⟨e, rfl⟩

end Reading

/-! ## Running -/

theorem exists_mapM_ok {ε σ α β : Type} {f : α → EStateM ε σ β}
    (he : ∀ a s, ∃ b s', f a s = .ok b s') (xs : List α) (s : σ) : ∃ bs s', xs.mapM f s = .ok bs s' := by
  induction xs generalizing s with
  | nil => exact ⟨[], s, by rw [mapM_nil]; rfl⟩
  | cons x xs ih =>
    obtain ⟨b, s₁, first⟩ := he x s
    obtain ⟨bs, s₂, hr⟩ := ih s₁
    exact ⟨b :: bs, s₂, by rw [mapM_cons, bind_of_ok first, bind_of_ok hr]; rfl⟩

theorem exists_fresh (d : Data) (s : Trace.State Machine Value) : ∃ v s', fresh d s = .ok v s' := by
  obtain ⟨v, rest, run⟩ := exists_valueOf d s.rest
  refine ⟨v, { s with rest }, ?_⟩
  rw [fresh, Trace.onRest, run]

theorem exists_runSource_eq (src : String) (ins : Entries Data) (s : Trace.State Machine Value) :
    ∃ s', runSource src ins s = (do
      let ss ← Target.ofExcept (readSource src)
      let _ ← run .top runFuel ss
      let res := ((← get).rest.globals.get? "__vbl_result__").getD .none
      modify fun s => { s with report := s.report.map fun r => r.finish res s.clock }
      return res : Eval Value) s' := by
  have he (e : String × Data) (s : Trace.State Machine Value) :
      ∃ p s', (do return (Value.str e.1, ← fresh e.2) : Eval (Value × Value)) s = .ok p s' := by
    obtain ⟨v, s', run⟩ := exists_fresh e.2 s
    exact ⟨_, s', by rw [bind_of_ok run]; rfl⟩
  obtain ⟨es, s₁, hpl⟩ := exists_mapM_ok he ins s
  exact ⟨_, bind_of_ok hpl⟩

theorem exists_runSource_error {src : String} {e : Fault} (hu : readSource src = .error e)
    (ins : Entries Data) (s : Trace.State Machine Value) : ∃ s', runSource src ins s = .error e s' := by
  obtain ⟨s', ho⟩ := exists_runSource_eq src ins s
  rw [ho, hu]
  exact ⟨s', rfl⟩

theorem exists_runSource_ok {src : String} {ss : List Target.Stmt} {next : Next} {v : Value}
    (hr : readSource src = .ok ss) (hru : ∀ s, ∃ s', run .top runFuel ss s = .ok next s' ∧
      s'.rest.globals.get? "__vbl_result__" = some v)
    (ins : Entries Data) (s : Trace.State Machine Value) :
    ∃ s', runSource src ins s = .ok v s' := by
  obtain ⟨s₁, ho⟩ := exists_runSource_eq src ins s
  obtain ⟨s₂, ran, hk⟩ := hru s₁
  have hv : (s₂.rest.globals.get? "__vbl_result__").getD .none = v := by rw [hk]; rfl
  subst hv
  rw [ho, hr]
  exact ⟨_, bind_of_ok ran⟩

theorem exists_run_arithmeticStmts (a : Arith) {f : Nat} (he : 2 * a.height + 2 ≤ f)
    (s : Trace.State Machine Value) : ∃ s', run .top (f + 4) (arithmeticStmts a) s = .ok .onward s' ∧
      s'.rest.globals.get? "__vbl_result__" = some (.int a.reading) := by
  have hu (name module : String) (g : Nat) (s : Trace.State Machine Value) :
      ∃ s', runOne .top (g + 1) (.use name module) s = .ok .onward s' := ⟨_, rfl⟩
  obtain ⟨s₁, first⟩ := hu "step" "vibelang.runtime.step" (f + 2) s
  obtain ⟨s₂, hs⟩ := hu "vbl" "vibelang.std" (f + 1) s₁
  obtain ⟨s₃, ht, hk⟩ : ∃ s₃, runOne .top (f + 1) (.assign ["__vbl_result__"] a.expr) s₂ = .ok .onward s₃ ∧
        s₃.rest.globals.get? "__vbl_result__" = some (.int a.reading) := by
    rw [runOne, bind_of_ok (a.evalExpr_expr he)]
    exact ⟨_, rfl, get?_put_self _ _ _⟩
  refine ⟨s₃, ?_, hk⟩
  rw [arithmeticStmts, run, bind_of_ok first]
  dsimp only
  rw [run, bind_of_ok hs]
  dsimp only
  rw [run, bind_of_ok ht]
  rfl

def resultOf (node given : Node) (clock : Float) (environment : Outbound.Environment) :
    Except RunError Data :=
  (execute (.obj [("run", node)]) given clock environment).result

section Result

variable {node inp : Node} {a : Arith} {ins : Entries Data} (hst : Stands node a)
  (hpl : inputsOf [("run", node)] inp = .ok ins) (now : Float)
  (env : Outbound.Environment)

include hst hpl

theorem resultOf_of_writable (hw : a.Writable) : resultOf node inp now env = .ok (.int a.reading) := by
  have hf : runFuel = 999996 + 4 := rfl
  have he : 2 * a.height + 2 ≤ 999996 := by
    have hs : a.height ≤ 200 := hw.1
    omega
  have hr := exists_run_arithmeticStmts a he
  rw [← hf] at hr
  obtain ⟨s', ran⟩ := exists_runSource_ok (readSource_arithmeticSource a hw) hr ins
    (opened (Data.ofNode (truthyMember "meta" [("run", node)])) now env)
  rw [resultOf, execute, executeMembers, hpl, compile_of_stands hst]
  dsimp only
  rw [ran]
  rfl

theorem resultOf_of_not_writable (hu : ¬ a.Writable) : ∃ e, resultOf node inp now env = .error e := by
  obtain ⟨e, hun⟩ := exists_readSource_error a hu
  obtain ⟨s', ran⟩ := exists_runSource_error hun ins
    (opened (Data.ofNode (truthyMember "meta" [("run", node)])) now env)
  rw [resultOf, execute, executeMembers, hpl, compile_of_stands hst]
  dsimp only
  rw [ran]
  exact ⟨_, rfl⟩

end Result

/-- A program that runs arithmetic comes to what the expression comes to as it is read. That is its
value if no negative numeral is raised to an even power, and otherwise some part of the expression
is read as another number than it is meant to be. Arithmetic that cannot be written or read is
refused. -/
theorem arithmetic_keeps_meaning (node given : Node) (a : Arith) (inputs : Entries Data)
    (clock : Float) (environment : Outbound.Environment) (stands : Stands node a)
    (placed : inputsOf [("run", node)] given = .ok inputs) :
    (a.Writable → resultOf node given clock environment = .ok (.int a.reading)) ∧
    (a.Writable → a.Careful → resultOf node given clock environment = .ok (.int a.value)) ∧
    (¬ a.Writable → ∃ e, resultOf node given clock environment = .error e) ∧
    ((∀ part ∈ a.parts, part.reading = part.value) ↔ a.Careful) := by
  have parts := a.forall_parts_iff_careful
  refine ⟨?_, ?_, ?_, parts⟩
  · intro writable
    exact resultOf_of_writable stands placed clock environment writable
  · intro writable careful
    rw [resultOf_of_writable stands placed clock environment writable,
      parts.2 careful a a.mem_parts]
  · intro unwritable
    exact resultOf_of_not_writable stands placed clock environment unwritable

def operationNode (sign : String) (left right : Node) : Node :=
  .obj [("binop", .obj [("op", .str sign), ("left", left), ("right", right)])]

/-- Twice the third power of `-3`. -/
theorem twice_cube_keeps_meaning :
    Stands (operationNode "*" (.int 2) (operationNode "**" (.int (-3)) (.int 3)))
      (.op .mul (.lit 2) (.pow (.lit (-3)) 3)) ∧
    resultOf (operationNode "*" (.int 2) (operationNode "**" (.int (-3)) (.int 3))) .null 1000.0 []
      = .ok (.int (-54)) := by
  have stands : Stands (operationNode "*" (.int 2) (operationNode "**" (.int (-3)) (.int 3)))
      (.op .mul (.lit 2) (.pow (.lit (-3)) 3)) :=
    .op (o := .mul) rfl rfl rfl (.numeral 2)
      (.pow (k := 3) rfl rfl rfl (.numeral (-3)) (.numeral 3))
  have writable : (Arith.op .mul (.lit 2) (.pow (.lit (-3)) 3)).Writable := by decide +kernel
  have careful : (Arith.op .mul (.lit 2) (.pow (.lit (-3)) 3)).Careful :=
    ⟨trivial, trivial, fun _ => by decide⟩
  exact ⟨stands, (arithmetic_keeps_meaning _ .null _ [] 1000.0 [] stands rfl).2.1 writable careful⟩

/-- The square of `-2` comes to `-4`. -/
theorem square_of_numeral_is_negative :
    Stands (operationNode "**" (.int (-2)) (.int 2)) (.pow (.lit (-2)) 2) ∧
    (Arith.pow (.lit (-2)) 2).value = 4 ∧
    resultOf (operationNode "**" (.int (-2)) (.int 2)) .null 1000.0 [] = .ok (.int (-4)) := by
  have stands : Stands (operationNode "**" (.int (-2)) (.int 2)) (.pow (.lit (-2)) 2) :=
    .pow (k := 2) rfl rfl rfl (.numeral (-2)) (.numeral 2)
  have writable : (Arith.pow (.lit (-2)) 2).Writable := by decide +kernel
  exact ⟨stands, rfl, resultOf_of_writable stands rfl 1000.0 [] writable⟩

end Program

end Appwright
