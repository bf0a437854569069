import Mathlib
import QueryFunctions.Proofs.Query.Units
import QueryFunctions.Proofs.Tail.Calls
import QueryFunctions.Proofs.Tail.Functions

/-! Tail calls cannot be seen in what a query gives, save that it does not overflow: a unit with more of
them has the outcome of the unit with fewer. The loop that makes them stays at one depth, with the
stack that it was entered with. -/
namespace QueryFunctions

/-- The same unit, with more tail calls in its functions and its main expression. -/
structure Query.MoreTail (q q' : Query) : Prop where
  options : q.options.MoreTail q'.options
  supply : q'.supply = q.supply
  registry : q.registry.MoreTail q'.registry
  main : q.main.MoreTail q'.main
  scope : q'.scope = q.scope
  stage : q'.stage = q.stage

structure Answer.MoreTail (a b : Answer) : Prop where
  value : a.value.MoreTail b.value
  updates : ValuesMoreTail a.updates b.updates

namespace Run

theorem start_moreTail {supply supply' : Supply} {o o' : Options} (ho : o.MoreTail o')
    (same : supply' = supply) {host host' : Host} (lighter : host.Lighter host')
    (focus : Option Value) :
    (RunState.start supply o host focus).MoreTail False True (.start supply' o' host' focus) where
  supply := same
  updates := .nil
  random := by simp only [RunState.start, ho.seed_eq]
  depth := Nat.le_refl _
  host := lighter
  frame := False.elim
  focus _ := by
    cases focus with
    | none => exact .none
    | some v => exact .some (.refl v)

def iteration (left : Nat) (next : PendingCall) : Run Flow := do
  checkInterrupt
  step (fun inner => nested (loop left inner)) next

theorem loop_succ (left : Nat) (next : PendingCall) :
    loop (left + 1) next = (iteration left next >>= fun flow =>
      match flow with
      | .done v => return v
      | .call next => loop left next) :=
  (bind_assoc _ _ _).symm

/-- The loop that makes the call `first` comes to make the call `next` after `n` calls in tail
position, in state `t` and with `left` of its budget. -/
inductive Iterates (r : RunSetting) (budget : Nat) (first : PendingCall) (s : RunState) :
    (n left : Nat) → (next : PendingCall) → (t : RunState) → Prop
  | start : Iterates r budget first s 0 budget first s
  | again {n left : Nat} {next next' : PendingCall} {t u : RunState} :
    Iterates r budget first s n (left + 1) next t →
    iteration left next r t = (.ok (.ok (.call next')), u) →
    Iterates r budget first s (n + 1) left next' u

namespace Iterates

variable {r : RunSetting} {budget n left : Nat} {first next : PendingCall} {s t : RunState}

theorem loop_eq (h : Iterates r budget first s n left next t) :
    loop budget first r s = loop left next r t := by
  induction h with
  | start => rfl
  | @again n left next next' t u _ step ih =>
    rw [ih, loop_succ, Computation.run_bind, step]

theorem allows (h : Iterates r budget first s n left next t) :
    RunState.Allows Allowance.all.still s t := by
  induction h with
  | start => exact .refl _ _
  | @again n left next next' t u _ step ih =>
    have kept : Restores Allowance.all.still (iteration left next) :=
      Restores.checkInterrupt.bind fun _ => step_restores (loop_givesBack left) next
    obtain ⟨-, kept, -⟩ := kept r t _ _ step
    exact ih.trans kept

end Iterates

end Run

namespace Query

/-- The unit as it would be with that choice. -/
def withTailCalls (q : Query) (tailCalls : Bool) : Query :=
  { q with options := { q.options with tailCalls } }

namespace MoreTail

variable {q q' : Query}

theorem setting (h : q.MoreTail q') : q.setting.MoreTail q'.setting := ⟨h.registry, h.options⟩

theorem withTailCalls (q : Query) : (q.withTailCalls false).MoreTail (q.withTailCalls true) where
  options := ⟨rfl, nofun⟩
  supply := rfl
  registry := .refl _
  main := .refl _
  scope := rfl
  stage := rfl

theorem flagsOf_eq {r r' : Registry} (h : r.MoreTail r') : r'.flagsOf = r.flagsOf := by
  funext id
  have found := h.find? id
  unfold Registry.flagsOf
  generalize r.find? id = e at found ⊢
  generalize r'.find? id = e' at found ⊢
  cases found with
  | none => rfl
  | some he => simp only [Option.map_some, he.flags_eq]

theorem compileMain_follows (budget : Nat) {main main' : Expr} (h : main.MoreTail main') :
    Compile.tails.Follows Expr.MoreTail (compileMain budget main) (compileMain budget main') := by
  refine (Compile.expression_follows budget h).bind fun e e' he => ?_
  refine (Compile.mentioned_follows budget).bind fun _ _ _ => ?_
  refine Likeness.Follows.get.bind fun s s' hs => ?_
  rw [flagsOf_eq hs.registry]
  exact .pure (he.refreshCalls _)

/-- Units that pass the same check are compiled to like units, or fail with the same error. -/
theorem compile (h : q.MoreTail q') (same : q'.check = q.check) {budget : Nat}
    {result : Except QueryError Unit} {p : Query} (run : q.compile budget = (.ok result, p)) :
    ∃ p', q'.compile budget = (.ok result, p') ∧ p.MoreTail p' := by
  unfold Query.compile at run ⊢
  rw [h.stage, same]
  cases stage : q.stage with
  | compiled =>
    simp only [stage] at run ⊢
    cases run
    exact ⟨_, rfl, h⟩
  | failed e =>
    simp only [stage] at run ⊢
    cases run
    exact ⟨_, rfl, h⟩
  | built =>
    simp only [stage] at run ⊢
    cases checked : q.check with
    | error e =>
      simp only [checked] at run ⊢
      cases run
      exact ⟨_, rfl, { h with stage := rfl }⟩
    | ok =>
      simp only [checked, Compile.outcome] at run ⊢
      have like : CompileState.MoreTail ⟨q.supply, q.registry, q.scope⟩
        ⟨q'.supply, q'.registry, q'.scope⟩ := ⟨h.supply, h.registry, h.scope⟩
      rcases ran : compileMain budget q.main q.options ⟨q.supply, q.registry, q.scope⟩ with
        ⟨f | ended, t⟩
      · rw [ran] at run
        cases run
      · obtain ⟨ended', t', ran', ends, ht⟩ := compileMain_follows budget h.main q.options q'.options
          _ _ h.options like _ _ ran fun _ _ => id
        rw [ran] at run
        rw [ran']
        cases ends with
        | error e =>
          cases run
          exact ⟨_, rfl, { h with
            supply := ht.supply, registry := ht.registry, scope := ht.scope, stage := rfl }⟩
        | ok he =>
          cases run
          exact ⟨_, rfl, ⟨h.options, ht.supply, ht.registry, he, ht.scope, rfl⟩⟩

/-- A compiled unit with more tail calls gives the same answer, unless the other one overflows. -/
theorem execute (h : q.MoreTail q') (compiled : q.stage = .compiled) {budget : Nat}
    {host host' : Host} (lighter : host.Lighter host') {focus : Option Value}
    {result : Except QueryError Answer} (run : (q.execute budget host focus).1 = .ok result)
    (free : ∀ e, result = .error e → ¬e.IsOverflow) :
    ∃ result', (q'.execute budget host' focus).1 = .ok result' ∧
      Ends Answer.MoreTail result result' := by
  have follows : (Run.tails False True).Follows Answer.MoreTail (q.runMain budget)
      (q'.runMain budget) := by
    unfold runMain
    rw [h.scope]
    refine (Run.inFrame_follows _ (Run.evaluate_follows budget h.main)).bind fun v w hv => ?_
    exact Run.takeUpdates_follows.bind fun vs ws hvs => .pure ⟨hv, hvs⟩
  simp only [Query.execute, compile_of_compiled _ _ compiled] at run
  simp only [Query.execute, compile_of_compiled _ _ (h.stage.trans compiled)]
  obtain ⟨result', t', run', ends, -⟩ := follows _ _ _ _ h.setting
    (Run.start_moreTail h.options h.supply lighter focus) _ _ (Prod.ext run rfl) free
  exact ⟨result', congrArg Prod.fst run', ends⟩

end MoreTail

theorem stage_of_compile {q p : Query} {budget : Nat}
    (run : q.compile budget = (.ok (.ok ()), p)) : p.stage = .compiled := by
  unfold compile at run
  split at run
  · rename_i stage
    cases run
    exact stage
  · cases run
  · split at run
    · cases run
    · dsimp only at run
      split at run <;> cases run
      rfl

/-- A unit gives the same answer with tail calls as without, unless it overflows without. -/
theorem execute_withTailCalls (q : Query) {budget : Nat} {host host' : Host}
    (lighter : host.Lighter host') {focus : Option Value} {result : Except QueryError Answer}
    (run : ((q.withTailCalls false).execute budget host focus).1 = .ok result)
    (free : ∀ e, result = .error e → ¬e.IsOverflow) :
    ∃ result', ((q.withTailCalls true).execute budget host' focus).1 = .ok result' ∧
      Ends Answer.MoreTail result result' := by
  rcases made : (q.withTailCalls false).compile budget with ⟨f | e | ⟨⟩, p⟩
  · simp only [execute, made] at run
    cases run
  · obtain ⟨p', made', -⟩ := (MoreTail.withTailCalls q).compile rfl made
    simp only [execute, made] at run
    cases run
    simp only [execute, made']
    exact ⟨_, rfl, .error e⟩
  · obtain ⟨p', made', like⟩ := (MoreTail.withTailCalls q).compile rfl made
    have compiled := stage_of_compile made
    have first : (p.execute budget host focus).1 = .ok result := by
      simp only [execute, made] at run
      simpa only [execute, compile_of_compiled _ _ compiled] using run
    obtain ⟨result', second, ends⟩ := like.execute compiled lighter first free
    refine ⟨result', ?_, ends⟩
    simp only [execute, compile_of_compiled _ _ (like.stage.trans compiled)] at second
    simpa only [execute, made'] using second

/-- Tail calls are invisible. A compiled unit, or a call with arguments, that ends without an overflow
ends in the same way with more tail calls, on the same host or one that is cancelled at the same moments
and has no more of the native stack in use. Tail calls are all that the option adds to a unit. However
many of them the loop makes, it is one level below the call that it makes, and the stack is the one that
the call was made on. -/
theorem tail_calls_invisible (budget : Nat) {host host' : Host} (lighter : host.Lighter host')
    (focus : Option Value) :
    (∀ (q q' : Query) (result : Except QueryError Answer), q.stage = .compiled → q.MoreTail q' →
      (q.execute budget host focus).1 = .ok result →
      (∀ e, result = .error e → ¬e.IsOverflow) →
      ∃ result', (q'.execute budget host' focus).1 = .ok result' ∧
        Ends Answer.MoreTail result result') ∧
    (∀ (q q' : Query) (next next' : PendingCall) (result : Except QueryError Value) (t : RunState),
      q.MoreTail q' → next.MoreTail next' →
      Run.call budget next q.setting (.start q.supply q.options host focus) =
        (.ok result, t) →
      (∀ e, result = .error e → ¬e.IsOverflow) →
      ∃ result' t', Run.call budget next' q'.setting
          (.start q'.supply q'.options host' focus) = (.ok result', t') ∧
        Ends Value.MoreTail result result' ∧ ValuesMoreTail t.updates t'.updates) ∧
    (∀ (q : Query) (result : Except QueryError Answer),
      ((q.withTailCalls false).execute budget host focus).1 = .ok result →
      (∀ e, result = .error e → ¬e.IsOverflow) →
      ∃ result', ((q.withTailCalls true).execute budget host' focus).1 = .ok result' ∧
        Ends Answer.MoreTail result result') ∧
    (∀ (q p : Query) (result : Except QueryError Unit),
      (q.withTailCalls false).compile budget = (.ok result, p) →
      ∃ p', (q.withTailCalls true).compile budget = (.ok result, p') ∧ p.MoreTail p') ∧
    (∀ (r : RunSetting) (s t : RunState) (first next : PendingCall) (n left : Nat),
      Run.Iterates r budget first s.deeper n left next t →
      t.depth = s.depth + 1 ∧ t.stack = s.stack ∧ t.base = s.base ∧
        (s.overflow? r.options = none →
          Run.call budget first r s = Run.leaving .shallower (Run.loop left next r t))) := by
  refine ⟨fun q q' result compiled like run free => like.execute compiled lighter run free, ?_,
    fun q result run free => execute_withTailCalls q lighter run free,
    fun q p result run => (MoreTail.withTailCalls q).compile rfl run, ?_⟩
  · intro q q' next next' result t like hnext run free
    have start := (Run.start_moreTail like.options like.supply lighter focus).outer
    obtain ⟨result', t', run', ends, ht⟩ := (Run.call_follows budget).follows hnext _ _ _ _
      like.setting start _ _ run free
    exact ⟨result', t', run', ends, ht.updates⟩
  · intro r s t first next n left turns
    have kept := turns.allows
    refine ⟨kept.depth, kept.stack_eq, kept.base, fun room => ?_⟩
    rw [Run.call, Run.nested_run, room, turns.loop_eq]

/-- A function that calls itself once, in tail position. -/
def recalling : Sample {} where
  requests :=
    [.declare { name := some "f", params := [("n", none)] }
        (.branch (.var "n") (.call "f" [.datum (.int 0)]) (.datum (.int 7))),
      .main (.call "f" [.datum (.int 1)])]
  made := by cbv
  compiled := by cbv

def recallingApart : Query := ((recalling.query.withTailCalls false).compile 3).2

theorem recallingApart_compiles :
    ((recalling.query.withTailCalls false).compile 3).1 = .ok (.ok ()) := by cbv

theorem recallingApart_compiled :
    (recalling.query.withTailCalls false).compile 3 = (.ok (.ok ()), recallingApart) :=
  eq_of_fst_eq recallingApart_compiles

set_option maxRecDepth 3000 in
theorem recallingApart_answer :
    (recallingApart.execute 3 .quiet none).1 = .ok (.ok ⟨.int 7, []⟩) := by cbv

set_option maxRecDepth 3000 in
theorem recalling_answer : ((recalling.query.withTailCalls false).execute 3 .quiet none).1 =
    .ok (.ok ⟨.int 7, []⟩) := by cbv

def recallingCall : PendingCall := .registered ⟨0⟩ [.int 1] .synthetic

set_option maxRecDepth 3000 in
theorem recallingCall_value : (Run.call 3 recallingCall recallingApart.setting
    (.start recallingApart.supply recallingApart.options .quiet none)).1 = .ok (.ok (.int 7)) := by cbv

theorem recallingCall_turn : (Run.iteration 2 recallingCall
    (recalling.query.compile 3).2.setting recalling.start.deeper).1 =
      .ok (.ok (.call (.registered ⟨0⟩ [.int 0] .synthetic))) := by cbv

theorem eq_of_ends_int {i : Int64} {result : Except QueryError Answer}
    (ends : Ends Answer.MoreTail (.ok ⟨.int i, []⟩) result) : result = .ok ⟨.int i, []⟩ := by
  cases ends with
  | @ok _ answer like =>
    obtain ⟨value, updates⟩ := answer
    obtain ⟨hvalue, hupdates⟩ := like
    cases hvalue
    cases hupdates
    rfl

theorem tail_calls_invisible_recalling :
    ∃ p, (recalling.query.withTailCalls true).compile 3 = (.ok (.ok ()), p) ∧
      (p.execute 3 .quiet none).1 = .ok (.ok ⟨.int 7, []⟩) ∧
      (Run.call 3 recallingCall p.setting (.start p.supply p.options .quiet none)).1 =
        .ok (.ok (.int 7)) ∧
      ((recalling.query.withTailCalls true).execute 3 .quiet none).1 = .ok (.ok ⟨.int 7, []⟩) ∧
      ∃ t, Run.Iterates (recalling.query.compile 3).2.setting 3 recallingCall
          recalling.start.deeper 1 2 (.registered ⟨0⟩ [.int 0] .synthetic) t ∧
        t.depth = recalling.start.depth + 1 ∧ t.stack = recalling.start.stack := by
  obtain ⟨execution, calls, choice, compilation, turns⟩ := tail_calls_invisible 3 (.refl .quiet) none
  obtain ⟨p, compiled, like⟩ := compilation recalling.query _ _ recallingApart_compiled
  obtain ⟨_, run, ends⟩ := execution _ p _ (stage_of_compile recallingApart_compiled) like
    recallingApart_answer nofun
  cases eq_of_ends_int ends
  obtain ⟨_, t, called, ends, -⟩ := calls _ p _ _ _ _ like (.registered _ _ (.refl _))
    (eq_of_fst_eq recallingCall_value) nofun
  obtain ⟨_, chosen, same⟩ := choice recalling.query _ recalling_answer nofun
  cases eq_of_ends_int same
  have turned : Run.Iterates _ 3 _ recalling.start.deeper 1 2 _ _ :=
    .again .start (eq_of_fst_eq recallingCall_turn)
  obtain ⟨depth, stack, -⟩ := turns _ recalling.start _ _ _ _ _ turned
  refine ⟨p, compiled, run, ?_, chosen, _, turned, depth, stack⟩
  cases ends with
  | ok value =>
    cases value
    exact congrArg Prod.fst called

end Query

end QueryFunctions
