import Appwright.Program.Execute
import Appwright.Proofs.Target.Steps

/-!
# Reports of programs

A program that compiles runs with a report that is empty at first. However the run ends, the report
documents it: attempts are nested, and the ends of attempts agree with their records, unless an
attempt failed with something that cannot be told. The report of `burst` has a start without an end.
-/

namespace Appwright

open Target Option

namespace Target

mutual
theorem exists_valueOf : ∀ (d : Data) (m : Machine), ∃ v m', valueOf d m = .ok v m'
  | .none, _ | .bool _, _ | .int _, _ | .float _, _ | .str _, _ | .symbol _, _
  | .other _ _ _, _ => ⟨_, _, rfl⟩
  | .list xs, m | .tuple xs, m => by
    obtain ⟨vs, m', run⟩ := exists_valuesOf xs m
    exact ⟨_, _, bind_of_ok run⟩
  | .dict entries, m => by
    obtain ⟨es, m', run⟩ := exists_valuesOfEntries entries m
    exact ⟨_, _, bind_of_ok run⟩
theorem exists_valuesOf : ∀ (ds : List Data) (m : Machine), ∃ vs m', valuesOf ds m = .ok vs m'
  | [], _ => ⟨_, _, rfl⟩
  | d :: rest, m => by
    obtain ⟨v, m', first⟩ := exists_valueOf d m
    obtain ⟨vs, m'', next⟩ := exists_valuesOf rest m'
    exact ⟨_, _, (bind_of_ok first).trans (bind_of_ok next)⟩
theorem exists_valuesOfEntries : ∀ (ds : List (Data × Data)) (m : Machine),
    ∃ es m', valuesOfEntries ds m = .ok es m'
  | [], _ => ⟨_, _, rfl⟩
  | (k, d) :: rest, m => by
    obtain ⟨key, m₁, first⟩ := exists_valueOf k m
    obtain ⟨v, m₂, hs⟩ := exists_valueOf d m₁
    obtain ⟨es, m₃, next⟩ := exists_valuesOfEntries rest m₂
    exact ⟨_, _, (bind_of_ok first).trans ((bind_of_ok hs).trans (bind_of_ok next))⟩
end

end Target

namespace Program

open Trace
open Target (Data Fault Value Machine)

theorem exists_opened_report (about : Data) (clock : Float) (environment : Outbound.Environment) :
    ∃ r, (opened about clock environment).report = some r ∧ r.events = [] ∧ r.steps = [] := by
  obtain ⟨v, rest, run⟩ := exists_valueOf about { environment }
  rw [opened, run]
  exact ⟨_, rfl, rfl, rfl⟩

theorem followed_runSource (src : String) (ins : Entries Data) : Followed (runSource src ins) := by
  have he (e : String × Data) : Followed (do return (Value.str e.1, ← fresh e.2)) :=
    (tracked_onRest _).yields
  refine (Tracked.mapM he ins).bind fun es => ?_
  refine (followed_lift _).bind fun _ => (followed_lift _).bind fun _ => ?_
  refine (followed_ofExcept _).bind fun ss => ?_
  refine ((followedAt runFuel).run .top ss).bind fun _ => ?_
  refine tracked_get.bind fun s => Tracked.bind (tracked_modify fun s' => ?_) fun _ => tracked_pure _
  -- the end of the run adds the result, and no event
  simp only [State.told, map_map]
  rfl

theorem documents_executeMembers {prog : Entries Node} {inp : Node} {ins : Entries Data}
    {src : String} (hh : inputsOf prog inp = .ok ins)
    (hhs : compile prog = .ok src) (now : Float) (env : Outbound.Environment) :
    ∃ rep, (executeMembers prog inp now env).report = some rep ∧
      Documents failures textOf (runSource src ins)
        (opened (Data.ofNode (truthyMember "meta" prog)) now env) rep := by
  obtain ⟨r, hc, hn, hno⟩ := exists_opened_report (Data.ofNode (truthyMember "meta" prog)) now env
  obtain ⟨r', hf, hd⟩ := (followed_runSource src ins).documents hc hn hno
  unfold executeMembers
  simp only [hh, hhs]
  cases run : runSource src ins (opened (Data.ofNode (truthyMember "meta" prog)) now env) with
  | ok v s =>
    rw [run, ending_ok] at hf
    exact ⟨_, congrArg (Option.map (spellReport s.rest.cells)) hf, hd.map _⟩
  | error e s =>
    rw [run, ending_error] at hf
    exact ⟨_, congrArg (Option.map (spellReport s.rest.cells)) hf, hd.map _⟩

/-! ## Messages -/

theorem logMessage_adds {τ α ε : Type} (fs : Failures ε) (v : α) (fields : Entries α)
    {s : State τ α} {r : Report α} (hc : s.report = some r) :
    ∃ r' more, (ending (logMessage fs v fields s)).report = some r' ∧
      r'.steps = r.steps ∧ r'.events = r.events ++ more ∧ ∀ e ∈ more, Event.kind? e = some "log" := by
  rcases logMessage_report fs v fields s with hs | ⟨e, hk, ha⟩
  · exact ⟨r, [], hs.trans hc, rfl, (List.append_nil _).symm, by simp⟩
  · rw [hc] at ha
    exact ⟨_, [e], ha, rfl, rfl, by simp [hk]⟩

/-! ## Reports document runs -/

def plainly : Failures String where
  describe := .ok
  guardHit token := token
  guardKind kind := kind
  guardShape kind := kind
  badRetry _ := "retry"
  clash _ field := field
  timedOut limit := limit

/-- A step, tried twice, that says something and calls a step with a guarded result. -/
def guardedTwice : Trace.Run Unit String String String :=
  callStep plainly some { name := "outer", retry := .int 1 } do
    logMessage plainly "hello" [("step", "outer"), ("attempt", "1")]
    callStep plainly some { name := "inner", guard := .arr [.str "no"] } (pure "no")

theorem tracked_guardedTwice : Tracked plainly some guardedTwice :=
  Tracked.callStep _ ((tracked_logMessage _ _).bind fun _ => (tracked_pure "no").callStep _)

/-- A program with a step that fails with a whole number of 4301 digits. -/
def burst : Entries Node :=
  [("steps", .list [.obj [("name", .str "burst"), ("body", .obj [("block", .list [
      .obj [("raise", .obj [("call", .str "ValueError"), ("args", .list [
        .obj [("binop", .obj [("op", .str "**"), ("left", .int 10), ("right", .int 4300)])]])])]])])]]),
    ("run", .obj [("call", .str "burst")])]

theorem exists_burst_report :
    ∃ rep, (execute (.obj burst) .null 1000.0 []).report = some rep ∧ ¬ Nested rep.marks := by
  have run : (execute (.obj burst) .null 1000.0 []).report.map Report.marks
      = some [.opening "burst" 1] := by decide +kernel
  obtain ⟨rep, hf, hm⟩ := map_eq_some_iff.1 run
  refine ⟨rep, hf, fun hn => ?_⟩
  have hc := hn.countP_isOpening
  rw [hm] at hc
  exact absurd hc (by decide)

end Program

end Appwright
