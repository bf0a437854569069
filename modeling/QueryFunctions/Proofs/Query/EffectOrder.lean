import Mathlib
import QueryFunctions.Proofs.Query.Units
import QueryFunctions.Proofs.Compile.Bindings
import QueryFunctions.Proofs.Query.Twins
import QueryFunctions.Proofs.Run.Restoration

/-! The order of declarations, and the order of effects. A function that is reached while it is being
compiled has no result type to give yet, so of two functions that call each other the first to be compiled
sees more of the other. A call of a closure expression evaluates what supplies the captured variables
before the arguments; expanded, it is a row of lets with the arguments outside, so these come first. -/
namespace QueryFunctions

namespace Compile

variable {o : Options} {s t : CompileState}

/-- A dynamic call passes its check if its callee, as far as that has a function type, takes so many
arguments, and updates if and only if the call says so. -/
theorem checkCallee_eq_ok_iff (site : DynamicSite) (callee : Expr) (arity : Nat) :
    checkCallee site callee arity o s = (.ok (.ok ()), t) ↔ t = s ∧
      ∀ f, callee.inferredType.funcType? = some f → f.arity = arity ∧
        (o.mixedUpdates = false → f.updating = site.updating) := by
  unfold checkCallee
  cases callee.inferredType.funcType? with
  | none => exact ⟨by rintro ⟨⟩; simp, fun h => h.1 ▸ rfl⟩
  | some f =>
    by_cases arity : f.arity = arity
    · cases mixed : o.mixedUpdates <;> cases asked : f.updating <;> cases site.updating <;>
        simp [Computation.run_bind, Computation.run_read, Computation.run_pure,
          Computation.run_throw, arity, mixed, asked, -bind_pure_comp]
      all_goals first
        | exact ⟨by rintro ⟨⟩; rfl, by rintro rfl; rfl⟩
        | nofun
    · simp only [ne_eq, arity, not_false_eq_true, if_true, Computation.run_bind,
        Computation.run_throw, Option.some.injEq, forall_eq', false_and, and_false, iff_false]
      nofun

end Compile

def Signature.key (s : Signature) : Option String × Nat := (s.name, s.params.length)

/-- A function that gives functions of one argument, and one that calls them with two. -/
def chooser : Signature × Surface :=
  ({ name := some "f" }, .branch (.call "g" [])
    (.function { params := [("x", none)] } (.datum (.int 1)))
    (.function { params := [("x", none)] } (.datum (.int 2))))

def applier : Signature × Surface :=
  ({ name := some "g" }, .dynamicCall false (.call "f" []) [.datum (.int 1), .datum (.int 2)])

/-- A unit that makes these declarations, and then its main expression. -/
def Query.declaring (declarations : List (Signature × Surface)) (main : Surface) : List BuildStep :=
  declarations.map (fun d => .declare d.1 d.2) ++ [.main main]

def chooserLast : Sample {} where
  requests := Query.declaring [applier, chooser] (.datum (.int 5))
  made := by cbv
  compiled := by cbv

def chooserFirst : Query :=
  .ofRequests {} (Query.declaring [chooser, applier] (.datum (.int 5)))

theorem chooserFirst_made :
    Query.build {} (Query.declaring [chooser, applier] (.datum (.int 5))) = .ok chooserFirst := by cbv

theorem chooserFirst_compiles : (chooserFirst.compile 9).1 =
    .ok (.error (.arity "(dynamic function)#2" 1 2 .synthetic)) := by cbv

/-- Whether a unit compiles depends on the order of its declarations. -/
theorem not_compile_perm : ¬∀ (declarations declarations' : List (Signature × Surface))
    (main : Surface) (q q' : Query) (budget : Nat) (result result' : Except QueryError Unit),
    declarations.Perm declarations' → (declarations.map (·.1.key)).Nodup →
    Query.build {} (Query.declaring declarations main) = .ok q →
    Query.build {} (Query.declaring declarations' main) = .ok q' →
    (q.compile budget).1 = .ok result → (q'.compile budget).1 = .ok result' →
    (result = .ok () ↔ result' = .ok ()) := by
  intro all
  have keys : ([applier, chooser].map (·.1.key)).Nodup := by decide
  have same := all _ _ _ _ _ 9 _ _ (.swap chooser applier []) keys chooserLast.made
    chooserFirst_made chooserLast.compiled chooserFirst_compiles
  cases same.1 rfl

/-- Slots may be written to, but updates and random numbers are out of bounds. -/
def Allowance.silent : Allowance := { Allowance.all with updates := False, draws := False }

namespace Run

/-- The expressions are evaluated one after the other, each to a value, on the way from one state to
another. -/
inductive InTurn (call : Caller) (r : RunSetting) : List Expr → RunState → RunState → Prop
  | nil {s} : InTurn call r [] s s
  | cons {e es v s t u} : e.evaluate call r s = (.ok (.ok v), t) → InTurn call r es t u →
    InTurn call r (e :: es) s u
  | aside {es s t u} : RunState.Allows .silent s t → InTurn call r es t u → InTurn call r es s u

variable {call : Caller} {r : RunSetting} {s t u : RunState}

namespace InTurn

theorem append {es es' : List Expr} (first : InTurn call r es s t)
    (second : InTurn call r es' t u) : InTurn call r (es ++ es') s u := by
  induction first with
  | nil => exact second
  | cons run _ ih => exact .cons run (ih second)
  | aside silent _ ih => exact .aside silent (ih second)

theorem after {α : Type} {act : Run α} {a : α} {es : List Expr} (silent : Restores .silent act)
    (run : act r s = (.ok (.ok a), t)) (rest : InTurn call r es t u) : InTurn call r es s u :=
  .aside (silent r s _ _ run).2.1 rest

end InTurn

theorem inTurn_of_evaluateList {es : List Expr} {vs : List Value}
    (run : evaluateList call es r s = (.ok (.ok vs), t)) : InTurn call r es s t := by
  induction es generalizing vs s with
  | nil =>
    cases run
    exact .nil
  | cons e es ih =>
    obtain ⟨v, u, first, rest⟩ := Computation.of_bind_ok run
    obtain ⟨vs, w, rest, last⟩ := Computation.of_bind_ok rest
    cases last
    exact .cons first (ih rest)

theorem inTurn_of_evaluateSupplies {scope : Scope} {es : List (VarId × Expr)}
    {captured : List (Variable × Value)}
    (run : evaluateSupplies call scope es r s = (.ok (.ok captured), t)) :
    InTurn call r (es.map Prod.snd) s t := by
  induction es generalizing captured s with
  | nil =>
    cases run
    exact .nil
  | cons p es ih =>
    obtain ⟨v, u, first, rest⟩ := Computation.of_bind_ok run
    obtain ⟨more, w, rest, last⟩ := Computation.of_bind_ok rest
    cases last
    exact .cons first (ih rest)

theorem inTurn_of_closure {c : Closure} {item : FuncItem}
    (run : c.evaluate call r s = (.ok (.ok item), t)) :
    InTurn call r (c.captures.map Prod.snd) s t := by
  obtain ⟨_, _, _, _, _, _, _, _, _, _⟩ := c
  obtain ⟨captured, u, supplies, made⟩ := Computation.of_bind_ok run
  have all := (inTurn_of_evaluateSupplies supplies).append (.after (.draw _) made .nil)
  rwa [List.append_nil] at all

/-- A call of a closure evaluates what supplies the captured variables, then the arguments, and then it is
made. -/
theorem inTurn_of_dynamicCall {site : DynamicSite} {c : Closure} {args : List Expr} {v : Value}
    (run : (Expr.dynamicCall site (.closure c) args).evaluate call r s = (.ok (.ok v), t)) :
    ∃ item values u, InTurn call r (c.captures.map Prod.snd ++ args) s u ∧
      call (.item item values site.span) r u = (.ok (.ok v), t) := by
  obtain ⟨callee, s₁, makes, run⟩ := Computation.of_bind_ok run
  obtain ⟨item, s₂, checks, run⟩ := Computation.of_bind_ok run
  obtain ⟨values, s₃, arguments, made⟩ := Computation.of_bind_ok run
  obtain ⟨item', s₄, makes, same⟩ := Computation.of_bind_ok makes
  cases same
  have rest := InTurn.after (site.callable_restores _ _) checks (inTurn_of_evaluateList arguments)
  exact ⟨item, values, s₃, (inTurn_of_closure makes).append rest, made⟩

end Run

namespace Expr

variable {call : Caller} {r : RunSetting} {s t : RunState} {v : Value}

theorem Supplies.evaluates {value new : Expr} (h : value.Supplies new)
    (run : new.evaluate call r s = (.ok (.ok v), t)) : value.evaluate call r s = (.ok (.ok v), t) := by
  cases h with
  | plain => exact run
  | @checked type span =>
    obtain ⟨w, u, first, check⟩ := Computation.of_bind_ok run
    split at check
    · cases check
      exact first
    · cases check
  | refused => cases run

theorem Bound.evaluates {core e : Expr} {values : List Expr} (h : core.Bound values e)
    (run : e.evaluate call r s = (.ok (.ok v), t)) :
    ∃ (kept : List Expr) (u : RunState), kept.Sublist values ∧
      (values.filter fun value => !value.droppable).Sublist kept ∧ Run.InTurn call r kept s u ∧
      core.evaluate call r u = (.ok (.ok v), t) := by
  induction h generalizing s with
  | core => exact ⟨[], s, .slnil, .slnil, .nil, run⟩
  | @letIn value _ _ _ _ slot supplies _ _ ih =>
    obtain ⟨w, s₁, first, run⟩ := Computation.of_bind_ok run
    obtain ⟨_, s₂, write, run⟩ := Computation.of_bind_ok run
    obtain ⟨kept, u, within, full, turns, inner⟩ := ih run
    refine ⟨value :: kept, u, within.cons_cons value, ?_, ?_, inner⟩
    · rw [List.filter_cons]
      split
      · exact full.cons_cons value
      · exact full.cons value
    · exact .cons (supplies.evaluates first) (.after (.set slot w trivial) write turns)
  | dropped idle _ ih =>
    obtain ⟨kept, u, within, full, turns, inner⟩ := ih run
    refine ⟨kept, u, within.cons _, ?_, turns, inner⟩
    rwa [List.filter_cons_of_neg (by simp [idle])]

end Expr

/-- A copy of the body of the closure in which constants and variables may stand for variables. -/
inductive Closure.HasInstance (c : Closure) (o : Options) (site : DynamicSite) : Expr → Prop
  | intro {table copied core supply supply'} : c.body.copy table supply = .ok (copied, supply') →
    (copied.addOrigins (site.inlinedFrom ++ [c.origin])).Instance o core →
    HasInstance c o site (Compile.keepTail site.tail core)

theorem Compile.expandClosure_bound {budget : Nat} {o : Options} {s t : CompileState}
    {site : DynamicSite} {c : Closure} {args : List Expr} {e : Expr}
    (length : args.length = c.params.length)
    (drawn : ∀ value ∈ args ++ c.captures.map Prod.snd, value.Drawn s.supply)
    (run : expandClosure (Expr.simplify budget) site c args o s = (.ok (.ok e), t)) :
    ∃ core, c.HasInstance o site core ∧ core.Bound (args ++ c.captures.map Prod.snd) e := by
  have values : (c.params.zip args ++ c.captures).map Prod.snd = args ++ c.captures.map Prod.snd := by
    rw [List.map_append, List.map_snd_zip (Nat.le_of_eq length)]
  obtain ⟨e', u, expanded, last⟩ := Computation.of_bind_ok run
  cases last
  obtain ⟨table, supply, copied, core, copies, made, bound⟩ :=
    expand_bound (values ▸ drawn) expanded
  rw [values] at bound
  refine ⟨keepTail site.tail core, .intro copies made, ?_⟩
  cases site.tail with
  | false => exact bound
  | true => exact bound.markTails

/-- What the simplifier makes of a call of a closure expression is the call itself, or code that evaluates
the arguments from left to right, then what supplies the captured variables, and then a copy of the body,
where droppable values may be left out. The call itself evaluates what supplies the captured variables
first and the arguments after that. -/
theorem dynamicCall_order {budget : Nat} {o : Options} {s t : CompileState} {site : DynamicSite}
    {c : Closure} {args : List Expr} {e : Expr}
    (drawn : ∀ value ∈ args ++ c.captures.map Prod.snd, value.Drawn s.supply)
    (run : Compile.simplifyDynamicCall (Expr.simplify budget) site (.closure c) args o s =
      (.ok (.ok e), t)) (call : Caller) (r : RunSetting) :
    (e = .dynamicCall site (.closure c) args ∨ ∃ core, c.HasInstance o site core ∧
      ∀ (u w : RunState) (v : Value), e.evaluate call r u = (.ok (.ok v), w) →
        ∃ (kept : List Expr) (m : RunState), kept.Sublist (args ++ c.captures.map Prod.snd) ∧
          ((args ++ c.captures.map Prod.snd).filter fun value => !value.droppable).Sublist kept ∧
          Run.InTurn call r kept u m ∧ core.evaluate call r m = (.ok (.ok v), w)) ∧
    ∀ (u w : RunState) (v : Value),
      (Expr.dynamicCall site (.closure c) args).evaluate call r u = (.ok (.ok v), w) →
      ∃ item values m, Run.InTurn call r (c.captures.map Prod.snd ++ args) u m ∧
        call (.item item values site.span) r m = (.ok (.ok v), w) := by
  refine ⟨?_, fun u w v => Run.inTurn_of_dynamicCall⟩
  unfold Compile.simplifyDynamicCall at run
  obtain ⟨_, s₁, checked, rest⟩ := Computation.of_bind_ok run
  obtain ⟨rfl, known⟩ := (Compile.checkCallee_eq_ok_iff ..).1 checked
  obtain ⟨_, s₂, read, made⟩ := Computation.of_bind_ok rest
  cases read
  dsimp only at made
  split at made
  · have length : (c.typeWith c.bodyType).arity = args.length := (known _ rfl).1
    obtain ⟨core, body, bound⟩ := Compile.expandClosure_bound
      (length.symm.trans (List.length_map _)) drawn made
    exact .inr ⟨core, body, fun u w v => bound.evaluates⟩
  · cases made
    exact .inl rfl

/-- An expression that asks for an update and gives a number. -/
def Surface.reporting (update value : Int64) : Surface :=
  .seq [.call "output" [.datum (.int update)], .datum (.int value)]

/-- A call of a function expression, where something else may be supplied for the `k` that it captures. -/
def Surface.calling (signature : Signature) (body : Surface) (supplies : List (Option Surface))
    (args : List Surface) : Surface :=
  .letIn "k" .focus (.dynamicCall false (.supplied (.function signature body) supplies) args)

def reportingRequests : List BuildStep :=
  [.main (.calling { params := [("x", none)] } (.arith .add (.var "x") (.var "k"))
    [some (.reporting 1 5)] [.reporting 2 7])]

def reporting : Sample {} where
  requests := reportingRequests
  made := by cbv
  compiled := by cbv

namespace reporting

def start : CompileState := ⟨reporting.query.supply, reporting.query.registry, reporting.query.scope⟩

def report (update value : Int64) : Expr :=
  .seq [.builtin .output [.value (.int update)] .synthetic, .value (.int value)]

def site : DynamicSite := ⟨false, false, [], .synthetic⟩

def closure : Closure where
  name := none
  params := [⟨1⟩]
  body := .arith .add (.var ⟨⟨1⟩, 0, .item, .synthetic⟩) (.var ⟨⟨2⟩, 1, .item, .synthetic⟩) .synthetic
  declared := none
  annotations := {}
  scope := { vars := [⟨⟨1⟩, "x", none, .item, 0, true⟩, ⟨⟨2⟩, "k", none, .item, 1, true⟩],
             slots := [true, true] }
  captures := [(⟨2⟩, report 1 5)]
  origin := ⟨0⟩
  compiled := false
  span := .synthetic

def compiledClosure : Closure := { closure with compiled := true }

def expansion : Except Fault (Except QueryError Expr) × CompileState :=
  Compile.simplifyDynamicCall (Expr.simplify 9) site (.closure compiledClosure) [report 2 7] {} start

def expanded : Expr :=
  .letIn ⟨3⟩ 0 (report 2 7) (.letIn ⟨4⟩ 1 (report 1 5) (.arith .add
    (.var ⟨⟨3⟩, 0, .item, .synthetic⟩) (.var ⟨⟨4⟩, 1, .item, .synthetic⟩) .synthetic))

end reporting

/-- The call is that of the unit, once its closure is compiled. -/
example : reporting.query.main = .letIn ⟨0⟩ 0 (.focus .synthetic)
    (.dynamicCall reporting.site (.closure reporting.closure) [reporting.report 2 7]) := by cbv

theorem reporting_expands : reporting.expansion.1 = .ok (.ok reporting.expanded) := by cbv

def reporting.entered : RunState := { Sample.start reporting with stack := #[.empty, .empty] }

theorem reporting_expanded_value : (reporting.expanded.evaluate (Run.call 9)
    reporting.query.setting reporting.entered).1 = .ok (.ok (.int 12)) := by cbv

theorem reporting_value : ((Expr.dynamicCall reporting.site (.closure reporting.compiledClosure)
    [reporting.report 2 7]).evaluate (Run.call 9) reporting.query.setting
      reporting.entered).1 = .ok (.ok (.int 12)) := by cbv

theorem dynamicCall_order_reporting : ∃ s t,
    Run.InTurn (Run.call 9) reporting.query.setting
      [reporting.report 2 7, reporting.report 1 5] reporting.entered s ∧
    Run.InTurn (Run.call 9) reporting.query.setting
      [reporting.report 1 5, reporting.report 2 7] reporting.entered t := by
  have drawn : ∀ value ∈ [reporting.report 2 7, reporting.report 1 5],
      value.Drawn reporting.start.supply := by
    intro value mem id refers
    obtain rfl | rfl : value = reporting.report 2 7 ∨ value = reporting.report 1 5 := by simpa using mem
    all_goals cases refers
  obtain ⟨made | ⟨core, -, turns⟩, plain⟩ := dynamicCall_order drawn
    (eq_of_fst_eq reporting_expands) (Run.call 9) reporting.query.setting
  · cases made
  · obtain ⟨kept, s, within, full, first, -⟩ := turns _ _ _ (eq_of_fst_eq reporting_expanded_value)
    obtain rfl := within.antisymm full
    obtain ⟨_, _, t, second, -⟩ := plain _ _ _ (eq_of_fst_eq reporting_value)
    exact ⟨s, t, first, second⟩

def reportingPlain : Sample { inlineLimit := 0 } where
  requests := reportingRequests
  made := by cbv
  compiled := by cbv

theorem reportingPlain_answer : (reportingPlain.query.execute 9 .quiet (some (.int 10))).1 =
    .ok (.ok ⟨.int 12, [.int 1, .int 2]⟩) := by cbv

theorem reporting_answer : (reporting.query.execute 9 .quiet (some (.int 10))).1 =
    .ok (.ok ⟨.int 12, [.int 2, .int 1]⟩) := by cbv

/-- So expansion shows in the order of updates. -/
theorem not_execute_of_expansion : ¬∀ (signature : Signature) (body : Surface)
    (supplies : List (Option Surface)) (args : List Surface) (limit budget : Nat)
    (focus : Option Value) (q q' : Query) (answer answer' : Answer),
    Query.build { inlineLimit := 0 } [.main (.calling signature body supplies args)] = .ok q →
    Query.build { inlineLimit := limit } [.main (.calling signature body supplies args)] = .ok q' →
    (q.execute budget .quiet focus).1 = .ok (.ok answer) →
    (q'.execute budget .quiet focus).1 = .ok (.ok answer') → answer.Twin answer' := by
  intro all
  have twin := all _ _ _ _ _ _ _ _ _ _ _ reportingPlain.made reporting.made reportingPlain_answer
    reporting_answer
  have ints : ValuesTwin ([1, 2].map .int) [.int 2, .int 1] := twin.updates
  injection ints.eq_ints with first
  injection first with first
  exact absurd first (by decide)

end QueryFunctions
