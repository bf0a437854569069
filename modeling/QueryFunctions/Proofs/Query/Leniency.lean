import QueryFunctions.Proofs.Leniency.Compilation
import QueryFunctions.Proofs.Query.LifeCycle
import Mathlib

/-! Units under options that allow more: the same checks, the same code, the same answers, unless the unit
fails with an error that the options may get past. Whether updates may be mixed with results decides no
more than whether an error is raised. -/
namespace QueryFunctions

variable {o o' : Options}

/-- Either way the check ends alike, or it fails with an error that the second options admit. -/
def Options.ChecksAlike (o o' : Options) (check : Options → Except QueryError Unit) : Prop :=
  (∃ e, check o = .error e ∧ o.Admits o' e) ∨ check o' = check o

namespace Options.ChecksAlike

theorem of_eq {check : Options → Except QueryError Unit} (same : check o' = check o) :
    o.ChecksAlike o' check := .inr same

theorem bind {first second : Options → Except QueryError Unit} (h : o.ChecksAlike o' first)
    (h' : o.ChecksAlike o' second) : o.ChecksAlike o' (fun o => do first o; second o) := by
  rcases h with ⟨e, failed, admitted⟩ | same
  · exact .inl ⟨e, by simp only [failed, Bind.bind, Except.bind], admitted⟩
  · cases passed : first o with
    | error e => exact .inr (by simp only [same, passed, Bind.bind, Except.bind])
    | ok =>
      rcases h' with ⟨e, failed, admitted⟩ | same'
      · exact .inl ⟨e, by simp only [passed, failed, Bind.bind, Except.bind], admitted⟩
      · exact .inr (by simp only [same, passed, same', Bind.bind, Except.bind])

theorem forM {α : Type} {f : α → Options → Except QueryError Unit}
    (each : ∀ a, o.ChecksAlike o' (f a)) (as : List α) :
    o.ChecksAlike o' fun o => as.forM fun a => f a o := by
  induction as with
  | nil => exact of_eq rfl
  | cons a as ih => exact (each a).bind ih

variable (looser : o.Looser o')

include looser

/-- Updates that are not declared, unless they may be mixed with results. -/
theorem undeclared {updates : Bool} {e : QueryError} (he : e.ConcernsUpdates)
    {rest : Options → Except QueryError Unit} (h : o.ChecksAlike o' rest) :
    o.ChecksAlike o' fun o => if updates && !o.mixedUpdates then .error e else rest o := by
  cases updates with
  | false => simpa using h
  | true =>
    rcases looser.mixedUpdates_cases with same | ⟨strict, loose, admitted⟩
    · rcases h with ⟨e', failed, ok⟩ | same'
      · cases mixed : o.mixedUpdates with
        | true => exact .inl ⟨e', by simp [mixed, failed], ok⟩
        | false => exact .inr (by simp [same, mixed])
      · exact .inr (by simp only [same, same'])
    · exact .inl ⟨e, by simp [strict], admitted e he⟩

theorem closure (c : Closure) (r : Registry) : o.ChecksAlike o' (c.checkUpdates r) := by
  unfold Closure.checkUpdates
  dsimp only
  split
  · exact of_eq rfl
  · exact undeclared looser (by trivial) (of_eq rfl)

theorem expr (e : Expr) (r : Registry) : o.ChecksAlike o' (e.checkUpdates r) := by
  refine forM (fun x => ?_) e.nodes
  split
  · exact closure looser _ r
  · exact of_eq rfl

theorem entry (e : Entry) (r : Registry) : o.ChecksAlike o' (e.checkUpdates r) := by
  unfold Entry.checkUpdates
  split
  · exact of_eq rfl
  · dsimp only
    split
    · exact of_eq rfl
    · exact undeclared looser (by trivial) (expr looser _ r)

theorem registry (r : Registry) : o.ChecksAlike o' r.checkUpdates :=
  forM (fun e => entry looser e r) r.entries

end Options.ChecksAlike

namespace Query

def under (q : Query) (o : Options) : Query := { q with options := o }

section

variable {q : Query} (looser : q.options.Looser o') (valid : q.options.maxDepth = 0 → o'.maxDepth = 0)

include looser valid

theorem validate_eq : o'.validate = q.options.validate := by
  have deeper := looser.maxDepth
  unfold Options.validate
  rw [looser.stackSize]
  by_cases zero : q.options.maxDepth = 0
  · rw [if_pos zero, if_pos (valid zero)]
  · rw [if_neg zero, if_neg (by omega)]

theorem check_under : (∃ e, q.check = .error e ∧ q.options.Admits o' e) ∨ (q.under o').check = q.check := by
  have validated : q.options.ChecksAlike o' Options.validate := .of_eq (validate_eq looser valid)
  have found : q.options.ChecksAlike o' fun _ => q.registry.check := .of_eq rfl
  exact validated.bind (found.bind ((Options.ChecksAlike.registry looser q.registry).bind
    (.expr looser q.main q.registry)))

theorem compile_under (budget : Nat) :
    (∃ e, (q.compile budget).1 = .ok (.error e) ∧ q.options.Admits o' e) ∨
      (q.under o').compile budget = ((q.compile budget).1, (q.compile budget).2.under o') := by
  cases stage : q.stage with
  | compiled => exact .inr (by simp only [compile, under, stage])
  | failed e => exact .inr (by simp only [compile, under, stage])
  | built =>
    rcases check_under looser valid with ⟨e, failed, admitted⟩ | same
    · exact .inl ⟨e, by simp only [compile, stage, failed], admitted⟩
    · cases checked : q.check with
      | error e =>
        refine .inr ?_
        simp only [compile, same, checked, stage]
        simp only [under, stage]
      | ok =>
        have main : Compile.Lenient q.options o' (compileMain budget q.main) :=
          (Compile.expression_lenient looser budget q.main).bind fun _ =>
            (Compile.mentioned_lenient looser budget).bind fun _ => Compile.Lenient.get.bind fun _ => .pure _
        rcases main ⟨q.supply, q.registry, q.scope⟩ with ⟨e, t, ran, admitted⟩ | ran
        · exact .inl ⟨e, by simp only [compile, stage, checked, Compile.outcome, ran], admitted⟩
        · refine .inr ?_
          simp only [compile, same, checked, stage, Compile.outcome]
          simp only [under, stage, ran]
          rcases compileMain budget q.main q.options ⟨q.supply, q.registry, q.scope⟩ with
            ⟨f | e | main, t⟩ <;> rfl

/-- The unit gives the same answer or the same error, unless it is an error that the options may get
past. -/
theorem execute_under {budget : Nat} {host : Host} {focus : Option Value}
    {result : Except QueryError Answer} (run : (q.execute budget host focus).1 = .ok result)
    (free : ∀ e, result = .error e → ¬q.options.Lifts o' e) :
    ∃ result', ((q.under o').execute budget host focus).1 = .ok result' ∧
      Ends Answer.Twin result result' := by
  have options := (compile_advances q budget).options
  rcases ran : q.compile budget with ⟨ended, p⟩
  rw [ran] at options
  rcases compile_under looser valid budget with ⟨e, failed, admitted⟩ | same
  · rw [ran] at failed
    cases failed
    simp only [execute, ran] at run
    cases run
    exact absurd (.inl admitted) (free e rfl)
  · rw [ran] at same
    rcases ended with f | e | ⟨⟩
    · simp only [execute, ran] at run
      cases run
    · simp only [execute, ran] at run
      cases run
      simp only [execute, same]
      exact ⟨_, rfl, .error e⟩
    · have compiled := stage_of_compile ran
      have code : p.SameCode (p.under o') := ⟨rfl, rfl, rfl, rfl⟩
      have first : (p.execute budget host focus).1 = .ok result := by
        simp only [execute, ran] at run
        simpa only [execute, compile_of_compiled _ _ compiled] using run
      rw [← options] at looser free
      obtain ⟨result', second, ends⟩ := code.execute_twins looser compiled (Nat.le_refl _) first free
      refine ⟨result', ?_, ends⟩
      simp only [execute, compile_of_compiled budget (p.under o') compiled] at second
      simpa only [execute, same] using second

end

/-- The unit with that choice. -/
def withMixedUpdates (q : Query) (mixedUpdates : Bool) : Query :=
  q.under { q.options with mixedUpdates }

/-- Where updates may be mixed with results, fewer units fail, and nothing else is different: a unit that
compiles without leave to mix them is compiled to the same code with it, and whatever it answers
without, but an error that concerns updates, it answers with it. -/
theorem mixing_conservative (q : Query) (budget : Nat) :
    (∀ (result : Except QueryError Unit) (p : Query),
      (q.withMixedUpdates false).compile budget = (.ok result, p) →
      (∀ e, result = .error e → ¬e.ConcernsUpdates) →
      (q.withMixedUpdates true).compile budget = (.ok result, p.withMixedUpdates true)) ∧
    ∀ (host : Host) (focus : Option Value) (result : Except QueryError Answer),
      ((q.withMixedUpdates false).execute budget host focus).1 = .ok result →
      (∀ e, result = .error e → ¬e.ConcernsUpdates) →
      ∃ result', ((q.withMixedUpdates true).execute budget host focus).1 = .ok result' ∧
        Ends Answer.Twin result result' := by
  have looser : (q.withMixedUpdates false).options.Looser { q.options with mixedUpdates := true } :=
    .mixing q.options
  constructor
  · intro result p run free
    have options : p.options = (q.withMixedUpdates false).options := by
      have kept := (compile_advances (q.withMixedUpdates false) budget).options
      rwa [run] at kept
    rcases compile_under looser id budget with ⟨e, failed, -, concerns⟩ | same
    · rw [run] at failed
      cases failed
      exact absurd concerns (free e rfl)
    · rw [run] at same
      have relaxed : p.withMixedUpdates true = p.under { q.options with mixedUpdates := true } := by
        rw [withMixedUpdates, options]
        rfl
      rw [relaxed]
      exact same
  · intro host focus result run free
    refine execute_under looser id run fun e failed => ?_
    rintro (⟨-, concerns⟩ | ⟨deeper, -⟩)
    · exact free e failed concerns
    · exact deeper rfl

/-- A unit that updates by a call of a function and by a call of a function item. -/
def announcing : Sample {} where
  requests :=
    [.declare { name := some "f", params := [("x", none)], annotations := { updating := true } }
        (.call "output" [.var "x"]),
      .main (.seq [.call "f" [.datum (.int 1)], .dynamicCall true (.literal "f" 1) [.focus],
        .datum (.int 5)])]
  made := by cbv
  compiled := by cbv

def announcingCompiled : Query := ((announcing.query.withMixedUpdates false).compile 9).2

theorem announcing_compiles :
    ((announcing.query.withMixedUpdates false).compile 9).1 = .ok (.ok ()) := by cbv

theorem announcing_answer :
    ((announcing.query.withMixedUpdates false).execute 9 .quiet (some (.int 2))).1 =
      .ok (.ok ⟨.int 5, [.int 1, .int 2]⟩) := by cbv

theorem mixing_conservative_announcing :
    (announcing.query.withMixedUpdates true).compile 9 =
        (.ok (.ok ()), announcingCompiled.withMixedUpdates true) ∧
      ((announcing.query.withMixedUpdates true).execute 9 .quiet (some (.int 2))).1 =
        .ok (.ok ⟨.int 5, [.int 1, .int 2]⟩) := by
  obtain ⟨compilation, execution⟩ := mixing_conservative announcing.query 9
  obtain ⟨_, run, ends⟩ := execution .quiet (some (.int 2)) _ announcing_answer nofun
  cases eq_of_ends_ints 5 [1, 2] ends
  exact ⟨compilation _ _ (eq_of_fst_eq announcing_compiles) nofun, run⟩

end Query

end QueryFunctions
