import Mathlib
import QueryFunctions.Proofs.CallFree.Building
import QueryFunctions.Proofs.CallFree.Compilation
import QueryFunctions.Proofs.Query.Units
import QueryFunctions.Proofs.Run.Brackets

/-! Main expressions without calls. Compilation succeeds at them, with a budget as large as the
expression, and what it makes gives the same value with the same effects. -/
namespace QueryFunctions

/-- After these requests, the builder makes the main expression of the unit of that one. -/
def Query.MainOf (before : List BuildStep) (expr : Surface) (q : Query) : Prop :=
  ∃ s main t, before.foldlM (fun (s, main) step => BuildStep.run step s main) ({}, .empty) =
    Except.ok (s, main) ∧ (expr.build none).outcome s = (.ok (.ok q.main), t)

theorem Expr.Refined.inFrame {e e' : Expr} (refined : e.Refined [] e') {size steps steps' : Nat}
    {r : RunSetting} {s u : RunState} {v : Value}
    (run : Run.inFrame size (Run.evaluate steps e) r s = (.ok (.ok v), u)) :
    Run.inFrame size (Run.evaluate steps' e') r s = (.ok (.ok v), u) := by
  rw [Run.inFrame_run] at run ⊢
  rcases inner : Run.evaluate steps e r (s.pushed size) with ⟨f | error | w, t⟩ <;> rw [inner] at run
  · cases run
  · cases run
  cases run
  obtain ⟨t', run', mirrors⟩ := refined.values (Run.call steps) (Run.call steps')
    (.refl _ (by simp)) inner
  change Run.leaving _ (e'.evaluate (Run.call steps') r (s.pushed size)) = _
  rw [run']
  have stack : t'.stack.shrink t'.base = t.stack.shrink t.base := by
    rw [mirrors.base]
    apply Array.ext
    · rw [Array.size_shrink, Array.size_shrink, mirrors.size]
    · intro i hi hi'
      rw [Array.size_shrink] at hi hi'
      have same := mirrors.below i (by omega)
      rw [Array.getElem?_eq_getElem (by omega), Array.getElem?_eq_getElem (by omega)] at same
      rw [Array.getElem_shrink, Array.getElem_shrink, Option.some.inj same]
  refine congrArg (Prod.mk _) ?_
  unfold RunState.popped
  rw [stack, mirrors.supply, mirrors.depth, mirrors.focus, mirrors.updates, mirrors.random,
    mirrors.host]

namespace Query

variable {options : Options} {before after : List BuildStep} {expr : Surface} {q : Query}

theorem sheltering_of_grows {s : BuildState} (grows : ({} : BuildState).Grows s)
    (formed : s.Formed False) : (sheltering []).holds s := by
  have outer : s.outer = [] := by
    have same := grows.frames.length_eq
    simpa [BuildState.frames] using same
  have frame := formed.frames.each s.frame List.mem_cons_self
  obtain ⟨more, names, captured⟩ := grows.frame.names
  rw [frame.closed grows.frame.capturing] at captured
  refine ⟨outer, frame.sound, ⟨by simp, by simp, fun id mem => ?_⟩⟩
  have none : more.map Prod.snd = [] := captured.symm
  unfold Frame.visible at mem
  rw [names, List.map_append, none] at mem
  cases mem

theorem MainOf.callFree (main : q.MainOf before expr) (free : expr.callFree = true)
    (made : build options (before ++ .main expr :: after) = .ok q) :
    q.scope.Sound q.supply ∧ q.main.CallFree q.scope.layout [] := by
  refine ⟨(drafted_of_build made).2.scope, ?_⟩
  obtain ⟨s, e, t, first, second⟩ := main
  have unnamed (steps : List BuildStep) : False → ∀ step ∈ steps, step.named = true := False.elim
  obtain ⟨empty, start⟩ := BuildStep.empty_formed False
  obtain ⟨_, _, ran, hs, he, grows⟩ := BuildStep.foldlM_formed before (unnamed before) empty start
  cases first.symm.trans ran
  have step : (BuildStep.main expr).run s e = .ok (t, q.main) := by
    unfold BuildStep.run
    dsimp only
    rw [second]
  obtain ⟨_, _, ran', ht, hmain, grows'⟩ := (BuildStep.main expr).run_formed False.elim hs he
  cases step.symm.trans ran'
  obtain ⟨u, e', rest, hu, -, grows''⟩ := BuildStep.foldlM_formed after (unnamed after) ht hmain
  have whole : build options (before ++ .main expr :: after) = .ok (.ofBuild options u e') := by
    unfold build
    rw [List.foldlM_append, first]
    simp only [bind, Except.bind, List.foldlM_cons, step, rest]
    rfl
  cases whole.symm.trans made
  obtain ⟨-, -, callFree⟩ :=
    Surface.build_callFree [] none expr free s (sheltering_of_grows grows hs) _ t second
  exact (callFree _ rfl).mono grows''.frame.extends_

end Query

/-- Compilation succeeds at a main expression without calls. Whatever value the expression gives as it was
built, the compiled one gives the same, and the runs end in the same state, so with the same updates and
the same random numbers to come. -/
theorem call_free_main_compiles {options : Options} {before after : List BuildStep} {expr : Surface}
    {q : Query} (free : expr.callFree = true)
    (made : Query.build options (before ++ .main expr :: after) = .ok q) (main : q.MainOf before expr)
    {budget : Nat} (fits : q.main.size ≤ budget) :
    ∃ compiled t, Compile.expression budget q.main q.options ⟨q.supply, q.registry, q.scope⟩ =
        (.ok (.ok compiled), t) ∧
      ∀ steps steps' r s v u,
        Run.inFrame q.scope.frameSize (Run.evaluate steps q.main) r s = (.ok (.ok v), u) →
        Run.inFrame t.scope.frameSize (Run.evaluate steps' compiled) r s = (.ok (.ok v), u) := by
  obtain ⟨sound, callFree⟩ := main.callFree free made
  have kept : (laid q.scope.layout q.scope.frameSize).Keeps q.options ⟨q.supply, q.registry, q.scope⟩
      (Compile.expression budget q.main) fun e' _ => Expr.Improved q.scope.layout [] q.main e' := by
    refine .bind (.get ⟨rfl, rfl⟩) fun _ u hu _ _ => ?_
    exact callFree.compileWith sound.distinct (by simp) fits hu
  unfold Contract.Keeps at kept
  rcases compiled : Compile.expression budget q.main q.options ⟨q.supply, q.registry, q.scope⟩ with
    ⟨f | error | e', t⟩ <;> rw [compiled] at kept
  · exact kept.2.elim
  · exact kept.2.2.elim
  · refine ⟨e', t, rfl, fun steps steps' r s v u run => ?_⟩
    rw [kept.1.2]
    exact kept.2.2.refined.inFrame run

/-- A let of another variable inside a let, and then one that gets the slot of the first. -/
def Surface.reusing : Surface :=
  .seq [
    .letIn "a" (.builtin .random [.datum (.int 10)])
      (.letIn "b" (.var "a") (.arith .add (.var "b") (.var "a"))),
    .letIn "c" .focus (.branch (.compare .lt (.datum (.int 1)) (.datum (.int 2)))
      (.seq [.builtin .output [.var "c"], .var "c"]) (.var "c"))]

namespace reusing

def query : Query := .ofRequests {} [.main .reusing]

def setting : RunSetting := ⟨query.registry, query.options⟩

def start : RunState := .start query.supply query.options .quiet (some (.int 7))

theorem evaluates : (Run.inFrame query.scope.frameSize (Run.evaluate 0 query.main) setting start).1 =
    .ok (.ok (.seq [.int 2, .int 7])) := by cbv

theorem updates : (Run.inFrame query.scope.frameSize (Run.evaluate 0 query.main) setting start).2.updates =
    [.int 7] := by cbv

end reusing

/-- The random number is drawn once, and the one update is that of the branch that is taken. -/
theorem reusing_compiles : ∃ compiled t u,
    Query.build {} [.main .reusing] = .ok reusing.query ∧ Query.MainOf [] .reusing reusing.query ∧
    Compile.expression 20 reusing.query.main reusing.query.options
      ⟨reusing.query.supply, reusing.query.registry, reusing.query.scope⟩ = (.ok (.ok compiled), t) ∧
    Run.inFrame t.scope.frameSize (Run.evaluate 0 compiled) reusing.setting reusing.start =
      (.ok (.ok (.seq [.int 2, .int 7])), u) ∧ u.updates = [.int 7] := by
  have made : Query.build {} ([] ++ .main .reusing :: []) = .ok reusing.query := by cbv
  have first : ((Surface.reusing.build none).outcome {}).1 = .ok (.ok reusing.query.main) := by cbv
  have main : Query.MainOf [] .reusing reusing.query := ⟨{}, .empty, _, rfl, eq_of_fst_eq first⟩
  have fits : reusing.query.main.size ≤ 20 := by cbv
  obtain ⟨compiled, t, done, same⟩ := call_free_main_compiles (by decide) made main fits
  have run := same 0 0 reusing.setting reusing.start _ _ (eq_of_fst_eq reusing.evaluates)
  exact ⟨compiled, t, _, made, main, done, run, reusing.updates⟩

end QueryFunctions
