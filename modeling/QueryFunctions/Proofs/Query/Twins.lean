import QueryFunctions.Proofs.Twin.Calls
import QueryFunctions.Query

/-! Executions of compiled units that have the same code. Their supplies and their budgets may differ, and
the options of the second may allow more. -/
namespace QueryFunctions

structure Answer.Twin (a b : Answer) : Prop where
  value : a.value.Twin b.value
  updates : ValuesTwin a.updates b.updates

theorem ValuesTwin.eq_ints {is : List Int64} {vs : List Value} (h : ValuesTwin (is.map .int) vs) :
    vs = is.map .int := by
  induction is generalizing vs with
  | nil =>
    cases h
    rfl
  | cons i is ih =>
    cases h with
    | cons hv hvs =>
      cases hv
      rw [ih hvs, List.map_cons]

theorem eq_of_ends_ints (i : Int64) (is : List Int64) {result : Except QueryError Answer}
    (ends : Ends Answer.Twin (.ok ⟨.int i, is.map .int⟩) result) :
    result = .ok ⟨.int i, is.map .int⟩ := by
  cases ends with
  | @ok _ answer like =>
    obtain ⟨value, updates⟩ := answer
    obtain ⟨hvalue, hupdates⟩ := like
    cases hvalue
    cases (hupdates.eq_ints : updates = is.map .int)
    rfl

theorem Answer.Twin.symm {a b : Answer} (h : a.Twin b) : b.Twin a := ⟨h.value.symm, h.updates.symm⟩

namespace Query

/-- Two units that are run in the same way, but for what their options allow. -/
structure SameCode (p q : Query) : Prop where
  main : q.main = p.main
  scope : q.scope = p.scope
  registry : q.registry = p.registry
  stage : q.stage = p.stage

namespace SameCode

variable {p q r : Query}

theorem refl (p : Query) : p.SameCode p := ⟨rfl, rfl, rfl, rfl⟩

theorem symm (h : p.SameCode q) : q.SameCode p :=
  ⟨h.main.symm, h.scope.symm, h.registry.symm, h.stage.symm⟩

theorem trans (h : p.SameCode q) (h' : q.SameCode r) : p.SameCode r :=
  ⟨h'.main.trans h.main, h'.scope.trans h.scope, h'.registry.trans h.registry,
    h'.stage.trans h.stage⟩

variable (same : p.SameCode q) (looser : p.options.Looser q.options)

include same looser

theorem runMain_twins {budget budget' : Nat} (more : budget ≤ budget') :
    (Run.twins p.options q.options).Follows Answer.Twin (p.runMain budget) (q.runMain budget') := by
  unfold runMain
  rw [same.scope, same.main]
  have value := Run.inFrame_twins p.scope.frameSize (Run.evaluate_twins looser more p.main)
  exact value.bind fun v w hv => Run.takeUpdates_twins.bind fun vs ws hvs => .pure ⟨hv, hvs⟩

/-- What the first unit answers, the second answers as well, unless it is an error that its options may
get past. -/
theorem execute_twins (compiled : p.stage = .compiled) {budget budget' : Nat}
    (more : budget ≤ budget') {host : Host} {focus : Option Value}
    {result : Except QueryError Answer} (run : (p.execute budget host focus).1 = .ok result)
    (free : ∀ e, result = .error e → ¬p.options.Lifts q.options e) :
    ∃ result', (q.execute budget' host focus).1 = .ok result' ∧
      Ends Answer.Twin result result' := by
  simp only [execute, compile_of_compiled _ _ compiled] at run
  simp only [execute, compile_of_compiled _ _ (same.stage.trans compiled)]
  have setting : RunSetting.Twin p.options q.options p.setting
    q.setting := ⟨rfl, rfl, same.registry⟩
  have start := RunState.Twin.start p.supply q.supply looser host focus
  obtain ⟨result', t', run', ends, -⟩ :=
    same.runMain_twins looser more _ _ _ _ setting start _ _ (Prod.ext run rfl) free
  exact ⟨result', congrArg Prod.fst run', ends⟩

end SameCode

end Query

end QueryFunctions
