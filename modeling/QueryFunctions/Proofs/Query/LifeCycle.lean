import Mathlib
import QueryFunctions.Proofs.Query.TailCalls
import QueryFunctions.Proofs.Query.Twins

/-! The life of a unit. It is compiled once and for all, or fails once and for all. Executions of a compiled
unit leave nothing behind but a supply that has less left, and no answer depends on that. -/
namespace QueryFunctions

namespace Query

/-- What a host asks of a unit. -/
inductive Request where
  | compile (budget : Nat)
  | execute (budget : Nat) (host : Host) (focus : Option Value)

def serve (q : Query) : Request → Query
  | .compile budget => (q.compile budget).2
  | .execute budget host focus => (q.execute budget host focus).2

def after (q : Query) (requests : List Request) : Query := requests.foldl serve q

/-- How a unit moves on. Its main expression is replaced when it is compiled, and what has come to an end
stays so. -/
structure Advances (p q : Query) : Prop where
  options : q.options = p.options
  main : q.stage = .compiled ∨ q.main = p.main
  compiled : p.stage = .compiled → p.SameCode q
  failed : ∀ e, p.stage = .failed e → q = p

namespace Advances

variable {p q r : Query}

theorem refl (p : Query) : p.Advances p := ⟨rfl, .inr rfl, fun _ => .refl p, fun _ _ => rfl⟩

theorem trans (first : p.Advances q) (second : q.Advances r) : p.Advances r where
  options := second.options.trans first.options
  main := by
    rcases second.main with done | same
    · exact .inl done
    · rcases first.main with done | same'
      · exact .inl ((second.compiled done).stage.trans done)
      · exact .inr (same.trans same')
  compiled done :=
    (first.compiled done).trans (second.compiled ((first.compiled done).stage.trans done))
  failed e stage := by
    cases first.failed e stage
    exact second.failed e stage

end Advances

theorem compile_advances (q : Query) (budget : Nat) : q.Advances (q.compile budget).2 := by
  cases stage : q.stage with
  | compiled =>
    rw [compile_of_compiled _ _ stage]
    exact .refl q
  | failed e =>
    rw [compile_of_failed _ _ _ stage]
    exact .refl q
  | built =>
    have fresh : ∀ {p : Query}, p.options = q.options → (p.stage = .compiled ∨ p.main = q.main) →
        q.Advances p := fun options main =>
      ⟨options, main, fun done => (nomatch stage.symm.trans done),
        fun e failed => (nomatch stage.symm.trans failed)⟩
    unfold compile
    rw [stage]
    dsimp only
    split
    · exact fresh rfl (.inr rfl)
    · split
      · exact fresh rfl (.inr rfl)
      · exact fresh rfl (.inr rfl)
      · exact fresh rfl (.inl rfl)

/-- A run draws identities, and changes nothing else of the unit that was compiled for it. -/
theorem execute_advances (q : Query) (budget : Nat) (host : Host) (focus : Option Value) :
    q.Advances (q.execute budget host focus).2 := by
  have compiled := q.compile_advances budget
  unfold execute
  rcases ran : q.compile budget with ⟨f | e | ⟨⟩, p⟩
  · rw [ran] at compiled
    exact compiled
  · rw [ran] at compiled
    exact compiled
  · rw [ran] at compiled
    refine compiled.trans ⟨rfl, .inr rfl, fun _ => ⟨rfl, rfl, rfl, rfl⟩, fun e failed => ?_⟩
    rw [stage_of_compile ran] at failed
    cases failed

theorem serve_advances (q : Query) : (request : Request) → q.Advances (q.serve request)
  | .compile budget => q.compile_advances budget
  | .execute budget host focus => q.execute_advances budget host focus

theorem after_advances (q : Query) (requests : List Request) : q.Advances (q.after requests) := by
  induction requests generalizing q with
  | nil => exact .refl q
  | cons request requests ih => exact (q.serve_advances request).trans (ih _)

theorem execute_repeats {p q : Query} (same : p.SameCode q) (options : q.options = p.options)
    (compiled : p.stage = .compiled) {budget budget' : Nat} (more : budget ≤ budget')
    {host : Host} {focus : Option Value} {result : Except QueryError Answer}
    (run : (p.execute budget host focus).1 = .ok result) :
    ∃ result', (q.execute budget' host focus).1 = .ok result' ∧
      Ends Answer.Twin result result' := by
  have looser : p.options.Looser q.options := by
    rw [options]
    exact .refl _
  refine same.execute_twins looser compiled more run fun e _ lifted => ?_
  rw [options] at lifted
  exact Options.not_lifts_self lifted

/-- A compiled unit stays as it is, and what it answers does not depend on what was asked before. A longer
budget makes no difference but that a run comes to an end. -/
theorem stable_of_compiled {p : Query} (compiled : p.stage = .compiled)
    (earlier later : List Request) (steps steps' : Nat) (host : Host) (focus : Option Value)
    (result : Except QueryError Answer)
    (run : ((p.after earlier).execute steps host focus).1 = .ok result) :
    (steps ≤ steps' →
      ∃ result', ((p.after later).execute steps' host focus).1 = .ok result' ∧
        Ends Answer.Twin result result') ∧
    ∀ result', ((p.after later).execute steps' host focus).1 = .ok result' →
      Ends Answer.Twin result result' := by
  have first := p.after_advances earlier
  have second := p.after_advances later
  have same := (first.compiled compiled).symm.trans (second.compiled compiled)
  have options := second.options.trans first.options.symm
  have done : (p.after earlier).stage = .compiled := (first.compiled compiled).stage.trans compiled
  have repeated : ∀ {steps'}, steps ≤ steps' →
      ∃ result', ((p.after later).execute steps' host focus).1 = .ok result' ∧
        Ends Answer.Twin result result' := fun more => execute_repeats same options done more run
  refine ⟨repeated, fun result' run' => ?_⟩
  rcases Nat.le_total steps steps' with more | more
  · obtain ⟨_, again, ends⟩ := repeated more
    cases again.symm.trans run'
    exact ends
  · obtain ⟨_, again, ends⟩ := execute_repeats same.symm options.symm (same.stage.trans done) more run'
    cases again.symm.trans run
    exact ends.symm fun _ _ => .symm

theorem answers_of_failed {p : Query} {e : QueryError} (failed : p.stage = .failed e)
    (requests : List Request) (budget : Nat) (host : Host) (focus : Option Value) :
    ((p.after requests).compile budget).1 = .ok (.error e) ∧
      ((p.after requests).execute budget host focus).1 = .ok (.error e) := by
  rw [(p.after_advances requests).failed e failed]
  simp only [execute, compile_of_failed _ _ _ failed, and_self]

theorem compile_error_cases {q p : Query} {budget : Nat} {e : QueryError}
    (run : q.compile budget = (.ok (.error e), p)) : p.stage = .failed e ∧ p.main = q.main := by
  unfold compile at run
  split at run
  · cases run
  · rename_i stage
    cases run
    exact ⟨stage, rfl⟩
  · split at run
    · cases run
      exact ⟨rfl, rfl⟩
    · dsimp only at run
      split at run <;> cases run
      exact ⟨rfl, rfl⟩

/-- The life of a unit, whatever it has been asked before it is compiled. Once it is, its code stays, and
any two executions with the same focus come to the same end, wherever they stand among other
requests. Once it has failed, that error is the answer to everything, and it has the main expression
that it was built with. -/
theorem life_cycle (q p : Query) (before : List Request) (budget : Nat) :
    ((q.after before).compile budget = (.ok (.ok ()), p) →
      (∀ later, (p.after later).main = p.main ∧ (p.after later).scope = p.scope ∧
        (p.after later).registry = p.registry ∧ (p.after later).isCompiled = true) ∧
      ∀ (earlier later : List Request) (steps steps' : Nat) (host : Host)
        (focus : Option Value) (result : Except QueryError Answer),
        ((p.after earlier).execute steps host focus).1 = .ok result →
        (steps ≤ steps' →
          ∃ result', ((p.after later).execute steps' host focus).1 = .ok result' ∧
            Ends Answer.Twin result result') ∧
        ∀ result', ((p.after later).execute steps' host focus).1 = .ok result' →
          Ends Answer.Twin result result') ∧
    ∀ e, (q.after before).compile budget = (.ok (.error e), p) →
      ∀ later, (p.after later).main = q.main ∧ (p.after later).isCompiled = false ∧
        ∀ (steps : Nat) (host : Host) (focus : Option Value),
          ((p.after later).compile steps).1 = .ok (.error e) ∧
            ((p.after later).execute steps host focus).1 = .ok (.error e) := by
  constructor
  · intro run
    have compiled := stage_of_compile run
    refine ⟨fun later => ?_, stable_of_compiled compiled⟩
    have same := (p.after_advances later).compiled compiled
    refine ⟨same.main, same.scope, same.registry, ?_⟩
    simp only [isCompiled, same.stage, compiled, decide_true]
  · intro e run later
    obtain ⟨failed, main⟩ := compile_error_cases run
    have before := q.after_advances before
    have unchanged := (p.after_advances later).failed e failed
    refine ⟨?_, ?_, fun steps host focus => answers_of_failed failed later steps host focus⟩
    · rw [unchanged, main]
      rcases before.main with done | same
      · rw [compile_of_compiled _ _ done] at run
        cases run
      · exact same
    · simp only [isCompiled, unchanged, failed, reduceCtorEq, decide_false]

def currying : Sample {} where
  requests :=
    [.main (.dynamicCall false
      (.partialApply (.function { params := [("x", none), ("y", none)] }
        (.arith .add (.var "x") (.var "y"))) [some .focus, none])
      [.datum (.int 1)])]
  made := by cbv
  compiled := by cbv

def curryingCompiled : Query := (currying.query.compile 9).2

theorem curryingCompiled_answer :
    (curryingCompiled.execute 9 .quiet (some (.int 10))).1 = .ok (.ok ⟨.int 11, []⟩) := by cbv

/-- Requests that may come between two executions; the last of them ends with an error. -/
def interlude : List Request :=
  [.execute 9 .quiet (some (.int 10)), .compile 9, .execute 9 { present := { cancelled := true } } none]

theorem curryingCompiled_supply :
    (curryingCompiled.after interlude).supply ≠ curryingCompiled.supply := by
  have left : (curryingCompiled.after interlude).supply.nextItem =
    curryingCompiled.supply.nextItem + 1 := by cbv
  intro same
  rw [same] at left
  omega

/-- A unit that calls a function of one parameter with two arguments. -/
def overfull : Query := .ofRequests {}
  [.main (.dynamicCall false (.function { params := [("a", none)] } (.var "a"))
    [.datum (.int 1), .datum (.int 2)])]

def overfullError : QueryError := .arity "(anonymous-function)#1" 1 2 .synthetic

theorem overfull_fails :
    ((overfull.after [.execute 9 .quiet none]).compile 9).1 = .ok (.error overfullError) := by cbv

theorem life_cycle_currying :
    (curryingCompiled.after interlude).supply ≠ curryingCompiled.supply ∧
      (curryingCompiled.after interlude).main = curryingCompiled.main ∧
      ((curryingCompiled.after interlude).execute 9 .quiet (some (.int 10))).1 =
        .ok (.ok ⟨.int 11, []⟩) ∧
      (((overfull.after [.execute 9 .quiet none]).compile 9).2.after interlude).main = overfull.main ∧
      ((((overfull.after [.execute 9 .quiet none]).compile 9).2.after interlude).execute 9 .quiet
        none).1 = .ok (.error overfullError) := by
  obtain ⟨compiled, -⟩ := life_cycle currying.query curryingCompiled [] 9
  obtain ⟨code, repeats⟩ := compiled (eq_of_fst_eq currying.compiled)
  obtain ⟨again, -⟩ := repeats [] interlude 9 9 .quiet (some (.int 10)) _ curryingCompiled_answer
  obtain ⟨_, run, ends⟩ := again (Nat.le_refl 9)
  cases eq_of_ends_ints 11 [] ends
  obtain ⟨-, failed⟩ := life_cycle overfull _ [.execute 9 .quiet none] 9
  obtain ⟨main, -, answers⟩ := failed _ (eq_of_fst_eq overfull_fails) interlude
  exact ⟨curryingCompiled_supply, (code interlude).1, run, main, (answers 9 .quiet none).2⟩

end Query

end QueryFunctions
