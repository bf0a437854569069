import QueryFunctions.Proofs.Recursion.Guard

/-! The simplifier makes code that names only what it is allowed to, and the guarded one does the same as
long as no function that is to be kept may be expanded. New names come from the bodies of functions that
are expanded, and from nowhere else. -/
namespace QueryFunctions

variable {P : FuncId → Prop} {kept : FuncId → Bool} {o : Options} {r : Registry} {s : CompileState}
  {simplify simplify' : Expr → Compile Expr}

section

variable (simplifies : SimplifierWithin P kept o r simplify simplify')

include simplifies

namespace Compile

theorem bindValue_withins (hs : s.registry = r) {v : Variable} {value body : Expr} (span : Span)
    (hvalue : value.Within P) (hbody : body.Within P) :
    Withins P kept o r s (bindValue simplify v value body span)
      (bindValue simplify' v value body span) := by
  have bound : ∀ (value : Expr) (t : CompileState), t.registry = r → value.Within P →
      Withins P kept o r t (simplify (.letIn v.id v.slot value body))
        (simplify' (.letIn v.id v.slot value body)) := fun value t ht hvalue =>
    simplifies _ t ht (Expr.within_letIn.2 ⟨hvalue, hbody⟩)
  unfold bindValue
  dsimp only
  split
  · split
    · exact bound value s hs hvalue
    · exact (simplifies _ s hs (Expr.within_treat.2 hvalue)).bind fun value' t ht _ hvalue' =>
        bound value' t ht hvalue'
  · exact bound value s hs hvalue

theorem expand_withins (hs : s.registry = r) (callee : Scope) {body : Expr} (hbody : body.Within P)
    {bindings : List (VarId × Expr)} (values : ∀ p ∈ bindings, p.2.Within P) (origins : List Origin)
    (span : Span) :
    Withins P kept o r s (expand simplify callee body bindings origins span)
      (expand simplify' callee body bindings origins span) := by
  have grown : (adopting s callee).scope.Retains s.scope := Scope.retains_adoptInto _ _ _
  have run (simplify : Expr → Compile Expr) : expand simplify callee body bindings origins span o s =
      (do
        let body ← draw (body.copy ((callee.adoptInto s.scope).run s.supply).1.2)
        bindings.reverse.foldlM (fun body p => do
          bindValue simplify (← ofFaulty (((callee.adoptInto s.scope).run s.supply).1.2.require p.1))
            p.2 body span) (body.addOrigins origins) : Compile Expr) o (adopting s callee) := rfl
  refine Pact.Keeps.after (run simplify) (run simplify') grown ?_
  have entered : (adopting s callee).registry = r := hs
  refine Pact.Keeps.bind (draw_withins entered (Expr.copy_within body hbody))
    fun copied t ht _ hcopied => ?_
  generalize ((callee.adoptInto s.scope).run s.supply).1.2 = table
  let pre (p : VarId × Expr) (_ : CompileState) : Prop := p.2.Within P
  have each : ∀ body p t, t.registry = r → body.Within P → pre p t →
      Withins P kept o r t (do bindValue simplify (← ofFaulty (table.require p.1)) p.2 body span)
        (do bindValue simplify' (← ofFaulty (table.require p.1)) p.2 body span) :=
    fun body p t ht hbody hp => (ofFaulty_withins ht).bind fun v u hu _ _ =>
      bindValue_withins simplifies hu span hp hbody
  exact Pact.Keeps.foldlM (fun _ _ _ _ h => h) (fun body p => each body p) bindings.reverse _ t ht
    (hcopied.addOrigins origins) fun p mem => values p (List.mem_reverse.1 mem)

end Compile

namespace Closure

theorem substituteBody_withins {body new : Expr} (id : VarId) (hs : s.registry = r)
    (hbody : body.Within P) (hnew : new.Within P) :
    Compile.Withins P kept o r s
      (do Compile.deferred (← Compile.attempt (body.substitute simplify ⟨id, new⟩)))
      (do Compile.deferred (← Compile.attempt (body.substitute simplify' ⟨id, new⟩))) :=
  (Pact.Keeps.attempt (Expr.substitute_withins simplifies hnew body s hs hbody)).bind
    fun _ _ ht _ hresult => Compile.deferred_withins ht hresult

theorem propagate_withins {c : Closure} (hs : s.registry = r) (hc : c.Within P) :
    (simplifierPact kept o r).Keeps o s (c.propagate simplify) (c.propagate simplify') fun c' _ =>
      c'.Within P := by
  unfold propagate
  dsimp only
  split
  · exact .pure hs hc
  · let pre (p : VarId × Expr) (_ : CompileState) : Prop := p.2.Within P
    have each : ∀ (body : Expr) (p : VarId × Expr) t, t.registry = r → body.Within P → pre p t →
        Compile.Withins P kept o r t
          (do Compile.deferred (← Compile.attempt (body.substitute simplify ⟨p.1, p.2⟩)))
          (do Compile.deferred (← Compile.attempt (body.substitute simplify' ⟨p.1, p.2⟩))) :=
      fun body p t ht hbody hp => substituteBody_withins simplifies p.1 ht hbody hp
    have supplied (t : CompileState) : ∀ p ∈ c.captures.filter (·.2.isValue), pre p t :=
      fun p mem => hc.1 p (List.mem_filter.1 mem).1
    refine (Compile.inScope_withins c.scope (Pact.Keeps.foldlM (fun _ _ _ _ h => h)
      (fun body p => each body p) _ c.body _ hs hc.2 (supplied _))).bind fun x t ht _ hx => ?_
    refine Pact.Keeps.bind (.same (.ofExcept ht)) fun body u hu _ found => ?_
    refine (Pact.Keeps.read hu).bind fun options v hv _ _ => ?_
    refine .pure hv ⟨fun q mem => hc.1 q (List.mem_filter.1 mem).1, ?_⟩
    exact (hx.1 body found.1).keepTail _

theorem simplifyWith_withins {c : Closure} (hs : s.registry = r) (hc : c.Within P) :
    Compile.Withins P kept o r s (c.simplifyWith simplify) (c.simplifyWith simplify') := by
  unfold simplifyWith
  split
  · exact .pure hs (Expr.within_closure.2 hc)
  · refine (propagate_withins simplifies hs hc).bind fun c' t ht _ hc' => ?_
    split
    · have made : Yields (liftSupply (c'.toItem [])) (·.Within P) :=
        Yields.liftSupply fun supply => ⟨Nat.le_refl _, hc'.toItem supply⟩
      refine (Compile.draw_withins ht made).bind fun f u hu _ hf => .pure hu ?_
      exact Expr.within_value.2 (Value.within_func.2 hf)
    · exact .pure ht (Expr.within_closure.2 hc')

end Closure

namespace Compile

theorem simplifyCall_withins (inlines : r.Inlines P o) {site : CallSite} {args : List Expr}
    (hs : s.registry = r) (he : (Expr.call site args).Within P) :
    Withins P kept o r s (simplifyCall simplify site args) (simplifyCall simplify' site args) := by
  have parts := Expr.within_call.1 he
  refine (entryOf_withins hs site.target).bind fun entry t ht _ found => ?_
  split
  · rename_i body present
    refine (Pact.Keeps.read ht).bind fun _ u hu _ same => ?_
    obtain ⟨rfl, rfl⟩ := same
    split
    · rename_i inlinable
      have hbody := inlines site.target entry body parts.1 found.1 inlinable present
      refine (expand_withins simplifies hu entry.scope hbody
        (fun p mem => parts.2 p.2 (List.of_mem_zip mem).2) [] site.span).bind fun e v hv _ he => ?_
      exact .pure hv (he.keepTail _)
    · exact .pure hu he
  · exact .pure ht he

theorem expandClosure_withins {site : DynamicSite} {c : Closure} {args : List Expr}
    (hs : s.registry = r) (hc : c.Within P) (hargs : ∀ e ∈ args, e.Within P) :
    Withins P kept o r s (expandClosure simplify site c args)
      (expandClosure simplify' site c args) := by
  refine (expand_withins simplifies hs c.scope hc.2 (fun p mem => ?_) _ c.span).bind
    fun e t ht _ he => .pure ht (he.keepTail _)
  rcases List.mem_append.1 mem with arg | capture
  · exact hargs p.2 (List.of_mem_zip arg).2
  · exact hc.1 p capture

end Compile

end

namespace Compile

theorem refused {α β : Type} {err : QueryError} {next : α → Compile β} {post : β → CompileState → Prop}
    (hs : s.registry = r) : (simplifierPact kept o r).toLaw.Keeps o s (throw err >>= next) post := by
  rw [Computation.throw_bind]
  exact .throw hs

theorem foldPartial_withins (site : PartialSite) {target : Expr} {args : List Expr}
    (hs : s.registry = r) : target.Within P → (∀ e ∈ args, e.Within P) →
      Withins P kept o r s (match target, Expr.values? args with
        | .value (.func item), some supplied => do
          return .value (.func
            (← draw (PartialApplication.make item supplied site.holes site.span)))
        | _, _ => return .partialApply site target args) (match target, Expr.values? args with
        | .value (.func item), some supplied => do
          return .value (.func
            (← draw (PartialApplication.make item supplied site.holes site.span)))
        | _, _ => return .partialApply site target args) := by
  intro htarget hargs
  split
  · rename_i item supplied found
    refine (draw_withins hs (PartialApplication.make_within (Value.within_func.1 htarget)
      (Expr.within_of_values? hargs found))).bind fun f t ht _ hf => .pure ht ?_
    exact Expr.within_value.2 (Value.within_func.2 hf)
  · exact .pure hs (Expr.within_partialApply.2 ⟨htarget, hargs⟩)

theorem simplifyPartial_withins {site : PartialSite} {target : Expr} {args : List Expr}
    (hs : s.registry = r) (he : (Expr.partialApply site target args).Within P) :
    Withins P kept o r s (simplifyPartial site target args) (simplifyPartial site target args) := by
  rw [Expr.within_partialApply] at he
  unfold simplifyPartial
  dsimp only
  split
  · exact foldPartial_withins site hs he.1 he.2
  · rename_i type _
    split
    · exact .same (refused hs)
    · refine (ofFaulty_withins hs).bind fun left t ht _ _ => ?_
      exact foldPartial_withins { site with type := some left } ht he.1 he.2

theorem checkCallee_withins (hs : s.registry = r) (site : DynamicSite) (callee : Expr) (arity : Nat) :
    (simplifierPact kept o r).Keeps o s (checkCallee site callee arity)
      (checkCallee site callee arity) fun _ _ => True := by
  refine .same ?_
  unfold checkCallee
  split
  · exact .pure hs trivial
  · dsimp only
    split
    · exact refused hs
    · refine (Law.Keeps.read hs).bind fun _ t ht _ _ => ?_
      split
      · split
        · exact refused ht
        · split
          · exact .throw ht
          · exact .pure ht trivial
      · exact .pure ht trivial

variable (simplifies : SimplifierWithin P kept o r simplify simplify')

include simplifies

theorem simplifyDynamicCall_withins {site : DynamicSite} {callee : Expr} {args : List Expr}
    (hs : s.registry = r) (he : (Expr.dynamicCall site callee args).Within P) :
    Withins P kept o r s (simplifyDynamicCall simplify site callee args)
      (simplifyDynamicCall simplify' site callee args) := by
  obtain ⟨hcallee, hargs⟩ := Expr.within_dynamicCall.1 he
  have closure : ∀ (c : Closure) (t : CompileState), t.registry = r → c.Within P →
      Withins P kept o r t
        (if c.inlinable o && !site.inlinedFrom.contains c.origin then
          expandClosure simplify site c args
        else return .dynamicCall site callee args)
        (if c.inlinable o && !site.inlinedFrom.contains c.origin then
          expandClosure simplify' site c args
        else return .dynamicCall site callee args) := by
    intro c t ht hc
    split
    · exact expandClosure_withins simplifies ht hc hargs
    · exact .pure ht he
  refine (checkCallee_withins hs site callee args.length).skip fun _ t ht _ => ?_
  refine (Pact.Keeps.read ht).bind fun _ u hu _ same => ?_
  obtain ⟨rfl, rfl⟩ := same
  split
  · rename_i item
    have hitem := Value.within_func.1 (Expr.within_value.1 hcallee)
    split
    · exact simplifies _ u hu (Expr.within_builtin.2 hargs)
    · rename_i params captured body scope code
      obtain ⟨hcaptured, hbody⟩ := hitem _ _ _ _ code
      split
      · refine (expand_withins simplifies hu scope hbody (fun p mem => ?_) _ site.span).bind
          fun e v hv _ he => .pure hv (he.keepTail _)
        rcases List.mem_append.1 mem with arg | capture
        · exact hargs p.2 (List.of_mem_zip arg).2
        · obtain ⟨q, hq, rfl⟩ := List.mem_map.1 capture
          exact hcaptured q hq
      · exact .pure hu he
  · rename_i c
    exact closure c u hu (Expr.within_closure.1 hcallee)
  · rename_i c
    exact closure c u hu (Expr.within_literal.1 hcallee).2
  · exact .pure hu he

end Compile

namespace Expr

section

variable (simplifies : SimplifierWithin P kept o r simplify simplify')

include simplifies

theorem simplifyWith_withins (inlines : r.Inlines P o) {e : Expr} (hs : s.registry = r)
    (he : e.Within P) :
    Compile.Withins P kept o r s (e.simplifyWith simplify) (e.simplifyWith simplify') := by
  cases e with
  | letIn id slot bound body =>
    obtain ⟨hbound, hbody⟩ := within_letIn.1 he
    rw [simplifyWith, simplifyWith]
    split
    · exact substitute_withins simplifies hbound body s hs hbody
    · split
      · exact .pure hs hbody
      · exact .pure hs he
  | branch => exact .pure hs (within_foldBranch he)
  | arith => exact .pure hs (within_foldArith he)
  | compare => exact .pure hs (within_foldCompare he)
  | seq => exact .pure hs (within_foldSeq he)
  | treat => exact .pure hs (within_foldTreat he)
  | builtin => exact .pure hs (within_foldBuiltin he)
  | closure c => exact Closure.simplifyWith_withins simplifies hs (within_closure.1 he)
  | literal site c =>
    obtain ⟨target, hc⟩ := within_literal.1 he
    refine (Closure.simplifyWith_withins simplifies hs hc).bind fun e t ht _ made => .pure ht ?_
    unfold Compile.rewrapLiteral
    split
    · exact within_literal.2 ⟨target, within_closure.1 made⟩
    · exact made
  | partialApply => exact Compile.simplifyPartial_withins hs he
  | call => exact Compile.simplifyCall_withins simplifies inlines hs he
  | dynamicCall => exact Compile.simplifyDynamicCall_withins simplifies hs he
  | value | var | focus | error => exact .pure hs he

end

/-- The guard is silent where the function of a call may not be expanded, or need not be kept. -/
theorem simplifyGuarded_call (alarm : Compile Expr → Compile Expr) (budget : Nat) {site : CallSite}
    {args : List Expr} (known : (s.registry.find? site.target).isSome = true)
    (withholds : s.registry.Withholds kept o) :
    (Expr.call site args).simplifyGuarded kept alarm (budget + 1) o s =
      (Expr.call site args).simplifyWith (simplifyGuarded kept alarm budget) o s := by
  obtain ⟨entry, found⟩ := Option.isSome_iff_exists.1 known
  rw [simplifyGuarded, Computation.run_bind, Compile.entryOf_run, found]
  dsimp only
  rw [Computation.run_bind, Computation.run_read]
  dsimp only
  cases guarded : kept site.target with
  | false => rfl
  | true => rw [withholds _ entry guarded found]; rfl

theorem simplifyGuarded_of_ne_call (alarm : Compile Expr → Compile Expr) (budget : Nat) {e : Expr}
    (other : ∀ site args, e ≠ .call site args) : e.simplifyGuarded kept alarm (budget + 1) =
      e.simplifyWith (simplifyGuarded kept alarm budget) := by
  cases e with
  | call site args => exact absurd rfl (other site args)
  | _ => rfl

theorem simplify_withins (inlines : r.Inlines P o) (alarm : Compile Expr → Compile Expr)
    (budget : Nat) :
    SimplifierWithin P kept o r (Expr.simplify budget) (simplifyGuarded kept alarm budget) := by
  induction budget with
  | zero => exact fun e s _ _ => .same (.of_fault rfl)
  | succ budget ih =>
    intro e s hs he
    have step := simplifyWith_withins ih inlines hs he
    refine ⟨step.law, fun result t run near => ?_⟩
    rw [← step.follows result t run near]
    cases e with
    | call site args =>
      refine simplifyGuarded_call alarm budget ?_ (hs ▸ near)
      by_contra missing
      have absent : s.registry.find? site.target = none := by simpa using missing
      have faulty : Expr.simplify (budget + 1) (.call site args) o s =
          (.error (.missingFunction site.target), s) := by
        change (Compile.entryOf site.target >>= _) o s = _
        rw [Computation.run_bind, Compile.entryOf_run, absent]
      rw [faulty] at run
      cases run
    | _ => rw [simplifyGuarded_of_ne_call alarm budget (fun _ _ => Expr.noConfusion)]

theorem simplify_retains {budget : Nat} {e : Expr} {s t : CompileState}
    {result : Except QueryError Expr} (run : e.simplify budget o s = (.ok result, t)) :
    t.registry = s.registry ∧ t.scope.Retains s.scope := by
  have anywhere : ∀ e : Expr, e.Within fun _ => True := fun _ _ _ => trivial
  have kept : Compile.Withins (fun _ => True) (fun _ => false) o s.registry s (e.simplify budget)
      (e.simplifyGuarded (fun _ => false) id budget) :=
    simplify_withins (fun _ _ body _ _ _ _ => anywhere body) id budget e s rfl (anywhere e)
  obtain ⟨same, retains, -⟩ := kept.law result t run
  exact ⟨same, retains⟩

end Expr

end QueryFunctions
