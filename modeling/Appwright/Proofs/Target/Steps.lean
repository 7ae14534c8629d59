import Appwright.Proofs.Trace.Attempts
import Appwright.Target.Eval

/-!
# Steps in running programs

Whatever a program computes, its report changes only through messages and through the attempts of
its steps, so each run can be followed from attempt to attempt. Values are computed without the
report (`Calc`), and the functions of the evaluator call only each other beside that: what holds of
all of them with some fuel holds of all of them with one more.
-/

namespace Appwright.Target

open Trace

variable {α : Type} {fuel : Nat}

abbrev Followed (x : Eval α) : Prop :=
  Tracked failures textOf x

theorem followed_lift (x : Calc α) : Followed (liftM x : Eval α) := tracked_onRest x

theorem followed_ofExcept (out : Except Fault α) : Followed (ofExcept out) := by
  cases out with
  | ok v => exact tracked_pure v
  | error e => exact tracked_throw e

theorem followed_onMachine (f : Machine → Machine) :
    Followed (modify fun s => { s with rest := f s.rest } : Eval PUnit) :=
  tracked_modify fun _ => rfl

theorem followed_withLocals (locals : Entries Value) {x : Eval α} (hx : Followed x) :
    Followed (withLocals locals x) := by
  refine tracked_get.bind fun s => ?_
  refine .ite ((tracked_throw _).bind fun _ => ?_) ?_ <;>
    exact (followed_onMachine fun m => { m with locals, calls := s.rest.calls + 1 }).bind fun _ =>
      (Tracked.caught hx).bind fun out =>
        (followed_onMachine fun m =>
          { m with locals := s.rest.locals, calls := s.rest.calls }).bind fun _ =>
            followed_ofExcept out

theorem followed_callLibrary (f : Library) (args : List Value) (named : Entries Value) :
    Followed (callLibrary f args named) := by
  refine (followed_ofExcept _).bind fun (bound, further) => ?_
  cases f with
  | log => exact (tracked_logMessage _ further).yields
  | nowIso => exact tracked_get.yields
  | toJson | fromJson => exact followed_lift _
  | ensure =>
    refine (followed_lift _).bind fun _ => .ite (tracked_pure _) ?_
    refine (followed_lift _).bind fun _ => .ite ?_ (tracked_throw _)
    exact (followed_lift _).bind fun _ => (tracked_throw _).bind fun _ => tracked_throw _
  | safeGet => exact (followed_lift _).bind fun _ => followed_lift _
  | env =>
    dsimp only
    split
    · exact tracked_get.yields
    · exact tracked_throw _
  | validateSchema | validateModel => exact tracked_throw _
  | parallel => exact tracked_pure _

structure FollowedAt (fuel : Nat) : Prop where
  expr : ∀ scope e, Followed (evalExpr scope fuel e)
  items : ∀ scope es, Followed (evalItems scope fuel es)
  entries : ∀ scope es, Followed (evalEntries scope fuel es)
  named : ∀ scope es, Followed (evalNamed scope fuel es)
  call : ∀ f args named, Followed (call fuel f args named)
  tasks : ∀ tasks, Followed (runTasks fuel tasks)
  function : ∀ f args named, Followed (callFunction fuel f args named)
  run : ∀ scope stmts, Followed (run scope fuel stmts)
  one : ∀ scope stmt, Followed (runOne scope fuel stmt)
  visit : ∀ scope targets body vs, Followed (visit scope fuel targets body vs)
  visitCell : ∀ scope targets body cell i, Followed (visitCell scope fuel targets body cell i)
  repeatWhile : ∀ scope test body otherwise,
    Followed (repeatWhile scope fuel test body otherwise)

namespace FollowedAt

variable (ih : FollowedAt fuel) (sc : Scope)

include ih

theorem evalExpr_succ (e : Expr) : Followed (evalExpr sc (fuel + 1) e) := by
  cases e with
  | name s => exact followed_lift _
  | none | bool | int | float | str => exact tracked_pure _
  | list xs => exact (ih.items sc xs).bind fun _ => followed_lift _
  | tuple xs => exact (ih.items sc xs).yields
  | dict entries =>
    refine (ih.entries sc entries).bind fun ps => ?_
    refine (Tracked.foldlM ?_ ps []).yields
    exact fun es e => followed_lift (putEntry es e.1 e.2)
  | attr base name => exact (ih.expr sc base).bind fun _ => followed_lift _
  | index base key =>
    exact (ih.expr sc base).bind fun _ => (ih.expr sc key).bind fun _ => followed_lift _
  | call function args named =>
    exact (ih.expr sc function).bind fun f => (ih.items sc args).bind fun args =>
      (ih.named sc named).bind fun named => ih.call f args named
  | neg e => exact (ih.expr sc e).bind fun _ => followed_lift _
  | not e => exact (ih.expr sc e).bind fun _ => (followed_lift _).yields
  | binary op left right =>
    cases op with
    | and =>
      refine (ih.expr sc left).bind fun v => (followed_lift _).bind fun _ => ?_
      exact .ite (ih.expr sc right) (tracked_pure v)
    | or =>
      refine (ih.expr sc left).bind fun v => (followed_lift _).bind fun _ => ?_
      exact .ite (tracked_pure v) (ih.expr sc right)
    | _ =>
      exact (ih.expr sc left).bind fun _ => (ih.expr sc right).bind fun _ => followed_lift _
  | delayed body => exact tracked_get.yields

theorem evalItems_succ (es : List Expr) : Followed (evalItems sc (fuel + 1) es) := by
  cases es with
  | nil => exact tracked_pure _
  | cons e rest =>
    exact (ih.expr sc e).bind fun _ => (ih.items sc rest).yields

theorem evalEntries_succ (es : List (Expr × Expr)) : Followed (evalEntries sc (fuel + 1) es) := by
  cases es with
  | nil => exact tracked_pure _
  | cons e rest =>
    exact (ih.expr sc e.1).bind fun _ => (ih.expr sc e.2).bind fun _ =>
      (ih.entries sc rest).yields

theorem evalNamed_succ (es : List (String × Expr)) : Followed (evalNamed sc (fuel + 1) es) := by
  cases es with
  | nil => exact tracked_pure _
  | cons e rest =>
    exact (ih.expr sc e.2).bind fun _ => (ih.named sc rest).yields

theorem runTasks_succ (tasks : List (Value × Value)) : Followed (runTasks (fuel + 1) tasks) := by
  cases tasks with
  | nil => exact tracked_pure _
  | cons task rest =>
    exact (ih.call task.2 [] []).caught.bind fun _ => (ih.tasks rest).yields

theorem parallel (args : List Value) (named : Entries Value) :
    Followed (Target.call (fuel + 1) (.library .parallel) args named) := by
  refine (followed_ofExcept _).bind fun bound => ?_
  dsimp only
  split
  · refine (ih.tasks _).bind fun outcomes => ?_
    refine (Tracked.mapM ?_ outcomes).yields
    exact fun out => (followed_ofExcept out.2).yields
  · exact tracked_throw _

theorem call_succ (f : Value) (args : List Value) (named : Entries Value) :
    Followed (Target.call (fuel + 1) f args named) := by
  unfold Target.call
  cases f with
  | builtin | base | method | stepMaker => exact followed_lift _
  | failure k => exact (followed_lift _).yields
  | library f =>
    cases f with
    | parallel => exact ih.parallel args named
    | _ => exact followed_callLibrary _ args named
  | function f =>
    dsimp only
    split
    · exact ih.function f args named
    · exact (ih.function f args named).callStep _
  | delayed body ns locals =>
    have hi : Followed (evalExpr (ns.elim .top .delayed) fuel body) := ih.expr _ body
    cases ns <;> exact (followed_lift _).bind fun _ => followed_withLocals locals hi
  | decorator cfg =>
    dsimp only
    split <;> exact tracked_pure _
  | _ => exact tracked_throw _

theorem callFunction_succ (f : Function) (args : List Value)
    (named : Entries Value) : Followed (callFunction (fuel + 1) f args named) := by
  refine (followed_ofExcept _).bind fun bound => ?_
  refine (followed_withLocals bound.1 (ih.run _ f.body)).bind fun next => ?_
  cases next <;> exact tracked_pure _

theorem run_succ (ss : List Stmt) : Followed (Target.run sc (fuel + 1) ss) := by
  cases ss with
  | nil => exact tracked_pure _
  | cons stmt rest =>
    refine (ih.one sc stmt).bind fun next => ?_
    cases next with
    | onward => exact ih.run sc rest
    | _ => exact tracked_pure _

theorem runOne_succ (stmt : Stmt) : Followed (runOne sc (fuel + 1) stmt) := by
  cases stmt with
  | expr e => exact (ih.expr sc e).yields
  | assign targets e =>
    exact (ih.expr sc e).bind fun _ => (followed_lift _).yields
  | ret e => exact (ih.expr sc e).yields
  | pass | «break» | «continue» => exact tracked_pure _
  | branch test yes no =>
    refine (ih.expr sc test).bind fun _ => (followed_lift _).bind fun _ => ?_
    exact .ite (ih.run sc yes) (ih.run sc no)
  | loop targets xs body =>
    refine (ih.expr sc xs).bind fun v => ?_
    cases v with
    | list cell => exact ih.visitCell sc targets body cell 0
    | _ => exact (followed_lift _).bind fun vs => ih.visit sc targets body vs
  | repeated test body otherwise => exact ih.repeatWhile sc test body otherwise
  | raise e =>
    cases e with
    | none => exact tracked_throw _
    | some e =>
      refine (ih.expr sc e).bind fun v => ?_
      cases v with
      | error k args => exact (followed_lift _).bind fun _ => tracked_throw _
      | _ => exact tracked_throw _
  | assert test msg =>
    refine (ih.expr sc test).bind fun _ => (followed_lift _).bind fun _ => ?_
    refine .ite (tracked_pure _) ?_
    cases msg with
    | none => exact tracked_throw _
    | some e =>
      exact (ih.expr sc e).bind fun _ => (followed_lift _).bind fun _ => tracked_throw _
  | within ctx _ => exact (ih.expr sc ctx).bind fun _ => tracked_throw _
  | define decorator name ps body =>
    have hf (v : Value) : Followed (do assign sc name v; return Next.onward) :=
      (followed_lift _).yields
    have hn (n : Nat) := followed_onMachine fun m => { m with definitions := n }
    rcases decorator with _ | e
    on_goal 1 => refine (tracked_pure _).bind fun wrap => ?_
    on_goal 2 => refine ((ih.expr sc e).map some).bind fun wrap => ?_
    -- what follows is the same with and without a decorator
    all_goals
      refine tracked_get.bind fun _ => (hn _).bind fun _ => ?_
      cases wrap with
      | none => exact hf _
      | some w => exact (ih.call w _ []).bind hf
  | use name module => exact (followed_lift _).yields

theorem visit_succ (targets : List String) (body : List Stmt) (vs : List Value) :
    Followed (Target.visit sc (fuel + 1) targets body vs) := by
  cases vs with
  | nil => exact tracked_pure _
  | cons v rest =>
    refine (followed_lift _).bind fun _ => (ih.run sc body).bind fun next => ?_
    cases next with
    | leave | done => exact tracked_pure _
    | _ => exact ih.visit sc targets body rest

theorem visitCell_succ (targets : List String) (body : List Stmt) (cell i : Nat) :
    Followed (Target.visitCell sc (fuel + 1) targets body cell i) := by
  refine (followed_lift _).bind fun xs => ?_
  cases xs[i]? with
  | none => exact tracked_pure _
  | some v =>
    refine (followed_lift _).bind fun _ => (ih.run sc body).bind fun next => ?_
    cases next with
    | leave | done => exact tracked_pure _
    | _ => exact ih.visitCell sc targets body cell (i + 1)

theorem repeatWhile_succ (test : Expr) (body otherwise : List Stmt) :
    Followed (Target.repeatWhile sc (fuel + 1) test body otherwise) := by
  refine (ih.expr sc test).bind fun _ => (followed_lift _).bind fun _ => .ite ?_ ?_
  · refine (ih.run sc body).bind fun next => ?_
    cases next with
    | leave | done => exact tracked_pure _
    | _ => exact ih.repeatWhile sc test body otherwise
  · exact ih.run sc otherwise

end FollowedAt

theorem followedAt (fuel : Nat) : FollowedAt fuel := by
  induction fuel with
  | zero =>
    constructor
    all_goals
      intros
      exact tracked_throw tooDeep
  | succ fuel ih =>
    exact {
      expr := ih.evalExpr_succ
      items := ih.evalItems_succ
      entries := ih.evalEntries_succ
      named := ih.evalNamed_succ
      call := ih.call_succ
      tasks := ih.runTasks_succ
      function := ih.callFunction_succ
      run := ih.run_succ
      one := ih.runOne_succ
      visit := ih.visit_succ
      visitCell := ih.visitCell_succ
      repeatWhile := ih.repeatWhile_succ }

end Appwright.Target
