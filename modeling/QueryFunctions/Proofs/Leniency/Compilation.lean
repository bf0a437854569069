import QueryFunctions.Compile.Function
import QueryFunctions.Proofs.Law.Basic
import QueryFunctions.Proofs.Leniency.Options

/-! Compilation with options that allow more. The compiler does the same in either case, step by step,
until the stricter options raise an error that the others do not know. Such an error is never put off: it
marks every function that is being compiled as failed, and ends the compilation of the unit. -/
namespace QueryFunctions

namespace Compile

variable {α β : Type} {o o' : Options}

/-- Either way the computation does the same, or the first options raise an error that the second admit. -/
def Lenient (o o' : Options) (act : Compile α) : Prop :=
  ∀ s, (∃ e t, act o s = (.ok (.error e), t) ∧ o.Admits o' e) ∨ act o' s = act o s

namespace Lenient

theorem of_eq {act : Compile α} (same : ∀ s, act o' s = act o s) : Lenient o o' act :=
  fun s => .inr (same s)

theorem pure (a : α) : Lenient o o' (pure a) := of_eq fun _ => rfl

theorem throw (e : QueryError) : Lenient o o' (throw e : Compile α) := of_eq fun _ => rfl

theorem fault (f : Fault) : Lenient o o' (Compile.fault f : Compile α) := of_eq fun _ => rfl

theorem get : Lenient o o' (get : Compile CompileState) := of_eq fun _ => rfl

theorem draw (act : Supplied α) : Lenient o o' (Compile.draw act) := of_eq fun _ => rfl

theorem modifyScope (f : Scope → Scope) : Lenient o o' (Compile.modifyScope f) := of_eq fun _ => rfl

theorem modifyRegistry (f : Registry → Registry) : Lenient o o' (Compile.modifyRegistry f) :=
  of_eq fun _ => rfl

theorem ofFaulty (result : Except Fault α) : Lenient o o' (Compile.ofFaulty result) := by
  cases result <;> exact of_eq fun _ => rfl

theorem ofExcept (result : Except QueryError α) : Lenient o o' (ofExcept result : Compile α) := by
  cases result <;> exact of_eq fun _ => rfl

theorem deferred (result : Except QueryError Expr) : Lenient o o' (Compile.deferred result) := by
  cases result with
  | ok e => exact pure e
  | error e =>
    unfold Compile.deferred
    dsimp only
    split
    · exact throw e
    · exact pure _

theorem bind {act : Compile α} {next : α → Compile β} (first : Lenient o o' act)
    (second : ∀ a, Lenient o o' (next a)) : Lenient o o' (act >>= next) := by
  intro s
  rw [Computation.run_bind, Computation.run_bind]
  rcases first s with ⟨e, t, run, admitted⟩ | same
  · rw [run]
    exact .inl ⟨e, t, rfl, admitted⟩
  · rw [same]
    rcases act o s with ⟨f | e | a, t⟩
    · exact .inr rfl
    · exact .inr rfl
    · exact second a t

theorem read_bind {next : Options → Compile β} (same : next o' = next o)
    (rest : Lenient o o' (next o)) : Lenient o o' (read >>= next) := by
  intro s
  rw [Computation.run_bind, Computation.run_bind, Computation.run_read, Computation.run_read]
  dsimp only
  rw [same]
  exact rest s

theorem ite {p : Prop} [Decidable p] {yes no : Compile α} (hyes : Lenient o o' yes)
    (hno : Lenient o o' no) : Lenient o o' (if p then yes else no) := by
  split
  · exact hyes
  · exact hno

theorem forM {f : α → Compile PUnit} (each : ∀ a, Lenient o o' (f a)) (as : List α) :
    Lenient o o' (as.forM f) := by
  induction as with
  | nil => exact pure _
  | cons a as ih => exact (each a).bind fun _ => ih

theorem foldlM {f : β → α → Compile β} (each : ∀ b a, Lenient o o' (f b a)) (as : List α) (b : β) :
    Lenient o o' (as.foldlM f b) := by
  induction as generalizing b with
  | nil => exact pure b
  | cons a as ih =>
    rw [List.foldlM_cons]
    exact (each b a).bind fun b => ih b

/-- An error that is given back as a value, and raised again if it is one that the second options admit. -/
theorem attempt_bind {act : Compile α} {next : Except QueryError α → Compile β}
    (first : Lenient o o' act) (second : ∀ result, Lenient o o' (next result))
    (raised : ∀ e, e.ConcernsUpdates → ∀ s, ∃ t, next (.error e) o s = (.ok (.error e), t)) :
    Lenient o o' (attempt act >>= next) := by
  intro s
  have run : ∀ o, attempt act o s = ((act o s).1.map .ok, (act o s).2) := fun _ => rfl
  rw [Computation.run_bind, Computation.run_bind, run, run]
  rcases first s with ⟨e, t, ran, admitted⟩ | same
  · rw [ran]
    obtain ⟨u, again⟩ := raised e admitted.2 t
    exact .inl ⟨e, u, again, admitted⟩
  · rw [same]
    rcases act o s with ⟨f | result, t⟩
    · exact .inr rfl
    · exact second result t

theorem inScope_bind {inner : Scope} {act : Compile α}
    {next : Except QueryError α × Scope → Compile β} (first : Lenient o o' act)
    (second : ∀ x, Lenient o o' (next x))
    (raised : ∀ e, e.ConcernsUpdates → ∀ scope s, ∃ t, next (.error e, scope) o s =
      (.ok (.error e), t)) :
    Lenient o o' (inScope inner act >>= next) := by
  intro s
  have run : ∀ o, inScope inner act o s = ((act o { s with scope := inner }).1.map
      fun r => .ok (r, (act o { s with scope := inner }).2.scope),
    { (act o { s with scope := inner }).2 with scope := s.scope }) := fun _ => rfl
  rw [Computation.run_bind, Computation.run_bind, run, run]
  rcases first { s with scope := inner } with ⟨e, t, ran, admitted⟩ | same
  · rw [ran]
    obtain ⟨u, again⟩ := raised e admitted.2 t.scope { t with scope := s.scope }
    exact .inl ⟨e, u, again, admitted⟩
  · rw [same]
    rcases act o { s with scope := inner } with ⟨f | result, t⟩
    · exact .inr rfl
    · exact second (result, t.scope) { t with scope := s.scope }

end Lenient

theorem deferred_raised {e : QueryError} (h : e.ConcernsUpdates) (o : Options) (s : CompileState) :
    Compile.deferred (.error e) o s = (.ok (.error e), s) := by
  simp only [deferred, h.isFatal, if_true]
  rfl

theorem entryOf_lenient (id : FuncId) : Lenient o o' (entryOf id) := by
  refine Lenient.get.bind fun s => ?_
  split
  · exact .pure _
  · exact .fault _

end Compile

open Compile (Lenient)

namespace Options.Looser

variable {o o' : Options} (h : o.Looser o')

include h

theorem entry_inlinable_eq (e : Entry) : e.inlinable o' = e.inlinable o := by
  simp only [Entry.inlinable, h.inlineLimit]

theorem closure_inlinable_eq (c : Closure) : c.inlinable o' = c.inlinable o := by
  simp only [Closure.inlinable, h.inlineLimit]

theorem inlinesItem_eq (site : DynamicSite) (item : FuncItem) (body : Expr) :
    Compile.inlinesItem site item body o' = Compile.inlinesItem site item body o := by
  simp only [Compile.inlinesItem, h.inlineLimit]

end Options.Looser

section

variable {o o' : Options} {simplify : Expr → Compile Expr}

theorem whereUsed_lenient (s : Substitution) (e : Expr) {rewritten : Compile Expr}
    (h : Lenient o o' rewritten) : Lenient o o' (whereUsed s e rewritten) :=
  .ite h (.pure e)

mutual
theorem Expr.substitute_lenient (h : ∀ e, Lenient o o' (simplify e)) (s : Substitution) :
    (e : Expr) → Lenient o o' (e.substitute simplify s)
  | .value _ | .focus _ | .error _ | .literal _ _ => .pure _
  | .var _ => .pure _
  | .letIn _ _ value body => whereUsed_lenient s _ ((Expr.substitute_lenient h s value).bind fun _ =>
    (Expr.substitute_lenient h s body).bind fun _ => h _)
  | .branch cond yes no _ => whereUsed_lenient s _ ((Expr.substitute_lenient h s cond).bind fun _ =>
    (Expr.substitute_lenient h s yes).bind fun _ => (Expr.substitute_lenient h s no).bind fun _ => h _)
  | .arith _ lhs rhs _ | .compare _ lhs rhs _ => whereUsed_lenient s _
    ((Expr.substitute_lenient h s lhs).bind fun _ => (Expr.substitute_lenient h s rhs).bind fun _ => h _)
  | .seq items => whereUsed_lenient s _ ((substituteList_lenient h s items).bind fun _ => h _)
  | .treat expr _ _ => whereUsed_lenient s _ ((Expr.substitute_lenient h s expr).bind fun _ => h _)
  | .builtin _ args _ | .call _ args => whereUsed_lenient s _
    ((substituteList_lenient h s args).bind fun _ => h _)
  | .closure c => whereUsed_lenient s _ ((Closure.substitute_lenient h s c).bind fun _ => h _)
  | .partialApply _ target args => whereUsed_lenient s _
    ((Expr.substitute_lenient h s target).bind fun _ => (substituteList_lenient h s args).bind fun _ => h _)
  | .dynamicCall _ callee args => whereUsed_lenient s _
    ((Expr.substitute_lenient h s callee).bind fun _ => (substituteList_lenient h s args).bind fun _ => h _)

theorem substituteList_lenient (h : ∀ e, Lenient o o' (simplify e)) (s : Substitution) :
    (es : List Expr) → Lenient o o' (substituteList simplify s es)
  | [] => .pure _
  | e :: es => (Expr.substitute_lenient h s e).bind fun _ =>
    (substituteList_lenient h s es).bind fun _ => .pure _

theorem Closure.substitute_lenient (h : ∀ e, Lenient o o' (simplify e)) (s : Substitution) :
    (c : Closure) → Lenient o o' (c.substitute simplify s)
  | ⟨_, _, _, _, _, _, captures, _, _, _⟩ =>
    (substituteSupplies_lenient h s captures).bind fun _ => .pure _

theorem substituteSupplies_lenient (h : ∀ e, Lenient o o' (simplify e)) (s : Substitution) :
    (es : List (VarId × Expr)) → Lenient o o' (substituteSupplies simplify s es)
  | [] => .pure _
  | (_, e) :: es => (Expr.substitute_lenient h s e).bind fun _ =>
    (substituteSupplies_lenient h s es).bind fun _ => .pure _
end

variable (simplifies : ∀ e, Lenient o o' (simplify e)) (looser : o.Looser o')

namespace Closure

include simplifies looser

theorem propagate_lenient (c : Closure) : Lenient o o' (c.propagate simplify) := by
  refine .ite (.pure c) ?_
  refine Lenient.inScope_bind (.foldlM (fun body x => ?_) _ _) (fun x => ?_) fun e _ scope s =>
    ⟨s, rfl⟩
  · exact Lenient.attempt_bind (Expr.substitute_lenient simplifies _ body) (fun _ => .deferred _)
      fun e h s => ⟨s, Compile.deferred_raised h o s⟩
  · refine (Lenient.ofExcept _).bind fun body => .read_bind ?_ (.pure _)
    rw [looser.tailCalls]

theorem simplifyWith_lenient (c : Closure) : Lenient o o' (c.simplifyWith simplify) := by
  refine .ite (.pure _) ((propagate_lenient simplifies looser c).bind fun c => .ite ?_ (.pure _))
  exact (Lenient.draw _).bind fun _ => .pure _

end Closure

namespace Compile

theorem foldPartial_lenient (site : PartialSite) (target : Expr) (args : List Expr) :
    Lenient o o' (match target, Expr.values? args with
      | .value (.func item), some supplied => do
        return .value (.func (← draw (PartialApplication.make item supplied site.holes site.span)))
      | _, _ => return .partialApply site target args : Compile Expr) := by
  split
  · exact (Lenient.draw _).bind fun _ => .pure _
  · exact .pure _

theorem simplifyPartial_lenient (site : PartialSite) (target : Expr) (args : List Expr) :
    Lenient o o' (simplifyPartial site target args) := by
  unfold simplifyPartial
  cases target.inferredType.funcType? with
  | none => exact foldPartial_lenient site target args
  | some type =>
    simp only [Computation.throw_bind]
    exact .ite (.throw _) ((Lenient.ofFaulty _).bind fun left => foldPartial_lenient _ target args)

include looser in
theorem checkCallee_lenient (site : DynamicSite) (callee : Expr) (arity : Nat) :
    Lenient o o' (checkCallee site callee arity) := by
  unfold checkCallee
  split
  · exact .pure _
  · rename_i type _
    simp only [Computation.throw_bind]
    refine .ite (.throw _) fun s => ?_
    rw [Computation.run_bind, Computation.run_bind, Computation.run_read, Computation.run_read]
    dsimp only
    rcases looser.mixedUpdates_cases with same | ⟨strict, loose, admitted⟩
    · rw [same]
      split
      · exact (Lenient.ite (.throw _) (.ite (.throw _) (.pure _)) : Lenient o o' _) s
      · exact .inr rfl
    · rw [strict, loose]
      simp only [Bool.not_false, Bool.not_true, if_true, Bool.false_eq_true, if_false]
      split
      · exact .inl ⟨_, s, rfl, admitted _ trivial⟩
      · split
        · exact .inl ⟨_, s, rfl, admitted _ trivial⟩
        · exact .inr rfl

section

include simplifies

theorem bindValue_lenient (v : Variable) (value body : Expr) (span : Span) :
    Lenient o o' (bindValue simplify v value body span) := by
  unfold bindValue
  split
  · exact .ite ((Lenient.pure _).bind fun _ => simplifies _)
      ((simplifies _).bind fun _ => simplifies _)
  · exact (Lenient.pure _).bind fun _ => simplifies _

theorem expand_lenient (callee : Scope) (body : Expr) (bindings : List (VarId × Expr))
    (origins : List Origin) (span : Span) :
    Lenient o o' (expand simplify callee body bindings origins span) := by
  refine Lenient.get.bind fun s => (Lenient.draw _).bind fun x => ?_
  refine (Lenient.modifyScope _).bind fun _ => (Lenient.draw _).bind fun body => ?_
  exact .foldlM (fun body x => (Lenient.ofFaulty _).bind fun v =>
    bindValue_lenient simplifies v _ body span) _ _

theorem expandClosure_lenient (site : DynamicSite) (c : Closure) (args : List Expr) :
    Lenient o o' (expandClosure simplify site c args) :=
  (expand_lenient simplifies _ _ _ _ _).bind fun _ => .pure _

end

include simplifies looser

theorem simplifyCall_lenient (site : CallSite) (args : List Expr) :
    Lenient o o' (simplifyCall simplify site args) := by
  refine (entryOf_lenient site.target).bind fun entry => ?_
  split
  · refine .read_bind ?_ (.ite ?_ (.pure _))
    · simp only [looser.entry_inlinable_eq]
    · exact (expand_lenient simplifies _ _ _ _ _).bind fun _ => .pure _
  · exact .pure _

theorem simplifyDynamicCall_lenient (site : DynamicSite) (callee : Expr) (args : List Expr) :
    Lenient o o' (simplifyDynamicCall simplify site callee args) := by
  refine (checkCallee_lenient looser site callee args.length).bind fun _ => ?_
  refine .read_bind ?_ ?_
  · simp only [looser.inlinesItem_eq, looser.closure_inlinable_eq]
  · split
    · split
      · exact simplifies _
      · refine .ite ?_ (.pure _)
        exact (expand_lenient simplifies _ _ _ _ _).bind fun _ => .pure _
    · exact .ite (expandClosure_lenient simplifies _ _ _) (.pure _)
    · exact .ite (expandClosure_lenient simplifies _ _ _) (.pure _)
    · exact .pure _

end Compile

include simplifies looser in
theorem Expr.simplifyWith_lenient (e : Expr) : Lenient o o' (e.simplifyWith simplify) := by
  unfold simplifyWith
  split
  · exact .ite (Expr.substitute_lenient simplifies _ _) (.ite (.pure _) (.pure _))
  · exact .pure _
  · exact .pure _
  · exact .pure _
  · exact .pure _
  · exact .pure _
  · exact .pure _
  · exact Closure.simplifyWith_lenient simplifies looser _
  · exact (Closure.simplifyWith_lenient simplifies looser _).bind fun _ => .pure _
  · exact Compile.simplifyPartial_lenient _ _ _
  · exact Compile.simplifyCall_lenient simplifies looser _ _
  · exact Compile.simplifyDynamicCall_lenient simplifies looser _ _ _
  · exact .pure _

end

variable {o o' : Options} (looser : o.Looser o')

include looser

theorem Expr.simplify_lenient (budget : Nat) (e : Expr) : Lenient o o' (e.simplify budget) := by
  induction budget generalizing e with
  | zero => exact .fault _
  | succ budget ih => exact Expr.simplifyWith_lenient ih looser e

theorem Compile.finishFunction_lenient (id : FuncId) (scope : Scope)
    (result : Except QueryError Expr) : Lenient o o' (finishFunction id scope result) := by
  refine .read_bind ?_ ?_
  · simp only [looser.tailCalls]
  · cases result with
    | ok body => exact .modifyRegistry _
    | error e => exact (Lenient.modifyRegistry _).bind fun _ => .throw e

theorem Closure.compileParts_lenient (c : Closure) {supplies : Compile (List (VarId × Expr))}
    {body : Compile Expr} (hsupplies : Lenient o o' supplies) (hbody : Lenient o o' body) :
    Lenient o o' (c.compileParts supplies body) := by
  refine hsupplies.bind fun captures => .inScope_bind hbody (fun x => ?_) fun e h scope s => ?_
  · refine (Lenient.deferred _).bind fun body => .read_bind ?_ (.pure _)
    rw [looser.tailCalls]
  · dsimp only [Except.map]
    rw [Computation.run_bind, Compile.deferred_raised h]
    exact ⟨s, rfl⟩

section

omit looser

variable {simplify : Expr → Compile Expr} {prepare : FuncId → Compile Unit}

theorem Compile.compileCall_lenient (simplifies : ∀ e, Lenient o o' (simplify e)) (site : CallSite)
    (args : List Expr) : Lenient o o' (compileCall simplify site args) := by
  refine (entryOf_lenient site.target).bind fun target => ?_
  simp only [Computation.throw_bind]
  exact .ite (.throw _) (simplifies _)

/-- What the walk of the compiler over an expression relies on. -/
structure LenientCompiler (o o' : Options) (simplify : Expr → Compile Expr)
    (prepare : FuncId → Compile Unit) : Prop where
  looser : o.Looser o'
  simplifies : ∀ e, Lenient o o' (simplify e)
  prepares : ∀ id, Lenient o o' (prepare id)

mutual
theorem Expr.compileWith_lenient (h : LenientCompiler o o' simplify prepare) :
    (e : Expr) → Lenient o o' (e.compileWith simplify prepare)
  | .value _ | .focus _ | .error _ => .pure _
  | .var ref => Lenient.get.bind fun s => by
    split
    · exact .pure _
    · exact .pure _
  | .letIn _ _ value body => (Expr.compileWith_lenient h value).bind fun _ =>
    (Lenient.modifyScope _).bind fun _ => (Expr.compileWith_lenient h body).bind fun _ => h.simplifies _
  | .branch cond yes no _ => (Expr.compileWith_lenient h cond).bind fun _ =>
    (Expr.compileWith_lenient h yes).bind fun _ => (Expr.compileWith_lenient h no).bind fun _ =>
      h.simplifies _
  | .arith _ lhs rhs _ | .compare _ lhs rhs _ => (Expr.compileWith_lenient h lhs).bind fun _ =>
    (Expr.compileWith_lenient h rhs).bind fun _ => h.simplifies _
  | .seq items => (compileList_lenient h items).bind fun _ => h.simplifies _
  | .treat expr _ _ => (Expr.compileWith_lenient h expr).bind fun _ => h.simplifies _
  | .builtin _ args _ => (compileList_lenient h args).bind fun _ => h.simplifies _
  | .closure c => .ite (.pure _) ((Closure.compileWith_lenient h c).bind fun _ => h.simplifies _)
  | .literal site c => .ite (.pure _) <| (h.prepares site.target).bind fun _ =>
    (Compile.entryOf_lenient site.target).bind fun target =>
      (Closure.compileAs_lenient h target c).bind fun _ => h.simplifies _
  | .partialApply _ target args => (Expr.compileWith_lenient h target).bind fun _ =>
    (compileList_lenient h args).bind fun _ => h.simplifies _
  | .call site args => (compileList_lenient h args).bind fun _ => (h.prepares site.target).bind fun _ =>
    Compile.compileCall_lenient h.simplifies site _
  | .dynamicCall _ callee args => (Expr.compileWith_lenient h callee).bind fun _ =>
    (compileList_lenient h args).bind fun _ => h.simplifies _

theorem compileList_lenient (h : LenientCompiler o o' simplify prepare) :
    (es : List Expr) → Lenient o o' (compileList simplify prepare es)
  | [] => .pure _
  | e :: es => (Expr.compileWith_lenient h e).bind fun _ => (compileList_lenient h es).bind fun _ => .pure _

theorem Closure.compileWith_lenient (h : LenientCompiler o o' simplify prepare) :
    (c : Closure) → Lenient o o' (c.compileWith simplify prepare)
  | ⟨_, _, body, _, _, _, captures, _, _, _⟩ => Closure.compileParts_lenient h.looser _
    (compileSupplies_lenient h captures) (Expr.compileWith_lenient h body)

theorem Closure.compileAs_lenient (h : LenientCompiler o o' simplify prepare) (target : Entry) :
    (c : Closure) → Lenient o o' (c.compileAs target simplify prepare)
  | ⟨_, _, body, _, _, _, captures, _, _, _⟩ => Closure.compileParts_lenient h.looser _
    (compileSupplies_lenient h captures) (Expr.compileWith_lenient h body)

theorem compileSupplies_lenient (h : LenientCompiler o o' simplify prepare) :
    (es : List (VarId × Expr)) → Lenient o o' (compileSupplies simplify prepare es)
  | [] => .pure _
  | (_, e) :: es => (Expr.compileWith_lenient h e).bind fun _ =>
    (compileSupplies_lenient h es).bind fun _ => .pure _
end

end

namespace Compile

theorem function_lenient {simplify : Expr → Compile Expr}
    (simplifies : ∀ e, Lenient o o' (simplify e)) (depth : Nat) (id : FuncId) :
    Lenient o o' (function simplify depth id) := by
  induction depth generalizing id with
  | zero => exact .fault _
  | succ depth ih =>
    refine (entryOf_lenient id).bind fun entry => ?_
    split
    · exact .pure _
    · exact .modifyRegistry _
    · exact .throw _
    · split
      · exact .throw _
      · rename_i body _
        refine (Lenient.modifyRegistry _).bind fun _ => ?_
        refine .inScope_bind (Expr.compileWith_lenient ⟨looser, simplifies, ih⟩ body) (fun x => ?_)
          fun e _ scope s => ⟨_, rfl⟩
        exact finishFunction_lenient looser id x.2 x.1

theorem registered_lenient (budget : Nat) (id : FuncId) : Lenient o o' (registered budget id) :=
  Lenient.get.bind fun _ => function_lenient looser (Expr.simplify_lenient looser budget) _ id

theorem expression_lenient (budget : Nat) (e : Expr) : Lenient o o' (expression budget e) :=
  have simplifies := Expr.simplify_lenient looser budget
  Lenient.get.bind fun _ =>
    Expr.compileWith_lenient ⟨looser, simplifies, function_lenient looser simplifies _⟩ e

theorem mentioned_lenient (budget : Nat) : Lenient o o' (mentioned budget) :=
  Lenient.get.bind fun _ => (Lenient.forM (fun _ => registered_lenient looser budget _) _).bind
    fun _ => .modifyRegistry _

end Compile

end QueryFunctions
