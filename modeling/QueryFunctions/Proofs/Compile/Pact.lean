import QueryFunctions.Proofs.Compile.Code
import QueryFunctions.Proofs.Expr.Nodes
import QueryFunctions.Proofs.Law.Compiling
import QueryFunctions.Proofs.Scope.Layout

/-! Two compilers side by side under a pact. What the pact asks for at single constructs is a structure of
its own, and wherever that is met one walk over the code shows that the second compiler follows the
first. -/
namespace QueryFunctions

/-- Code that is compiled to itself. -/
def Expr.Ready : Expr → Prop
  | .value _ | .focus _ | .error _ => True
  | .closure c | .literal _ c => c.compiled = true
  | _ => False

namespace Closure

theorem retains_refineAll (captures : List (VarId × Expr)) (scope : Scope) :
    (captures.foldl (fun scope (id, e) => scope.refine id e.inferredType) scope).Retains scope := by
  induction captures generalizing scope with
  | nil => exact .refl scope
  | cons p captures ih => exact (ih _).trans (Scope.retains_refine scope p.1 _)

/-- What becomes of a closure that is compiled: its signature is left alone, and `made` holds of its parts. -/
structure Becomes (pact : Pact CompileState) (made : Expr → Prop) (c c' : Closure) : Prop where
  shape : c' = { c with captures := c'.captures, body := c'.body, scope := c'.scope, compiled := true }
  parts : ∀ p ∈ c'.captures.map Prod.snd ++ [c'.body], made p
  bare : c.captures = [] → c'.captures = []
  scope : ∃ s t, pact.leads s t ∧ s.scope.Retains c.scope ∧ t.scope = c'.scope

end Closure

namespace Pact

/-- Both computations end alike, in code that is `made`. -/
abbrev Makes (pact : Pact CompileState) (made : Registry → Expr → Prop) (o : Options)
    (s : CompileState) (act act' : Compile Expr) : Prop :=
  pact.Keeps o s act act' fun e t => made t.registry e

/-- Two compilers that keep the pact on `raw` code. What they give is `made`, and the functions that it
names are `prepared`; both remain so wherever the pact leads. -/
structure Compilers (pact : Pact CompileState) (o : Options) (raw : Expr → Prop)
    (made : Registry → Expr → Prop) (prepared : Registry → FuncId → Prop)
    (simplify simplify' : Expr → Compile Expr) (prepare prepare' : FuncId → Compile Unit) : Prop where
  part : ∀ {e p}, raw e → p ∈ e.parts → raw p
  later : ∀ {s t e}, pact.leads s t → made s.registry e → made t.registry e
  remains : ∀ {s t id}, pact.leads s t → prepared s.registry id → prepared t.registry id
  enter : ∀ {s} scope, pact.holds s → pact.holds { s with scope }
  leave : ∀ {s t inner}, pact.leads { s with scope := inner } t →
    pact.leads s { t with scope := s.scope }
  near : ∀ {s scope}, pact.near { s with scope } → pact.near s
  refine : ∀ s id type, pact.leads s { s with scope := s.scope.refine id type }
  ready : ∀ {e} r, raw e → e.Ready → made r e
  var : ∀ r ref, made r (.var ref)
  error : ∀ r err, made r (.error err)
  coerce : ∀ {r e} declared span, made r e → made r (e.coerce declared span)
  keepTail : ∀ {r e} tail, made r e → made r (Compile.keepTail tail e)
  prepares : ∀ {e id s}, raw e → e.isUseOf id = true → pact.holds s →
    pact.Keeps o s (prepare id) (prepare' id) fun _ t => prepared t.registry id
  simplifies : ∀ {e s}, pact.holds s → (∀ v, e ≠ .value v) → (∀ site c, e ≠ .literal site c) →
    (∀ id, e.isUseOf id = true → prepared s.registry id) → (∀ p ∈ e.parts, made s.registry p) →
    pact.Makes made o s (simplify e) (simplify' e)
  literals : ∀ {site c c' entry s t}, raw (.literal site c) → pact.holds s →
    s.registry.find? site.target = some entry → pact.leads s t → pact.holds t →
    prepared t.registry site.target → (c.adaptTo entry).Becomes pact (made t.registry) c' →
    pact.Makes made o t (simplify (.literal site c')) (simplify' (.literal site c'))

namespace Compilers

variable {pact : Pact CompileState} {o : Options} {raw : Expr → Prop} {made : Registry → Expr → Prop}
  {prepared : Registry → FuncId → Prop} {simplify simplify' : Expr → Compile Expr}
  {prepare prepare' : FuncId → Compile Unit} {s : CompileState}
  (h : pact.Compilers o raw made prepared simplify simplify' prepare prepare')

include h

theorem compileRef (hs : pact.holds s) (ref : VarRef) :
    pact.Makes made o s (Compile.compileRef ref) (Compile.compileRef ref) := by
  refine (Keeps.get hs).bind fun _ t ht _ _ => ?_
  split
  · exact .pure ht (h.var _ _)
  · exact .pure ht (h.var _ _)

theorem refined (hs : pact.holds s) (id : VarId) (type : SeqType) :
    pact.Keeps o s (Compile.modifyScope (·.refine id type)) (Compile.modifyScope (·.refine id type))
      fun _ _ => True :=
  .of_eq rfl (h.enter _ hs) (h.refine _ _ _) trivial

theorem deferred (hs : pact.holds s) {result : Except QueryError Expr}
    (value : ∀ e, result = .ok e → made s.registry e) :
    pact.Makes made o s (Compile.deferred result) (Compile.deferred result) :=
  Keeps.deferred hs value fun err => h.error _ err

theorem inScope (inner : Scope) {act act' : Compile Expr}
    (kept : pact.Makes made o { s with scope := inner } act act') :
    pact.Keeps o s (Compile.inScope inner act) (Compile.inScope inner act') fun x u =>
      (∀ e, x.1 = .ok e → made u.registry e) ∧
        ∃ t, pact.leads { s with scope := inner } t ∧ t.scope = x.2 := by
  have back : ∀ t, pact.holds t → pact.leads { s with scope := inner } t →
      pact.holds { t with scope := s.scope } ∧ pact.leads s { t with scope := s.scope } :=
    fun t ht hst => ⟨h.enter _ ht, h.leave hst⟩
  refine (Keeps.inScope inner kept back fun t => h.near).mono fun x u _ _ ending => ?_
  obtain ⟨t, rfl, scope, hst, value⟩ := ending
  exact ⟨value, t, hst, scope.symm⟩

theorem compileParts {c : Closure} {supplies supplies' : Compile (List (VarId × Expr))}
    {body body' : Compile Expr}
    (hsupplies : pact.Keeps o s supplies supplies' fun es t =>
      (∀ q ∈ es, made t.registry q.2) ∧ (c.captures = [] → es = []))
    (hbody : ∀ t : CompileState, pact.holds t → pact.Makes made o t body body') :
    pact.Keeps o s (c.compileParts supplies body) (c.compileParts supplies' body') fun c' t =>
      c.Becomes pact (made t.registry) c' := by
  refine hsupplies.bind fun captures t ht _ hcaptures => ?_
  refine Keeps.bind (h.inScope _ (hbody _ (h.enter _ ht))) fun x u hu htu hx => ?_
  have coerced : ∀ e, x.1.map (·.coerce c.declared c.span) = .ok e → made u.registry e := by
    intro e there
    cases result : x.1 with
    | error err =>
      rw [result] at there
      cases there
    | ok e' =>
      rw [result] at there
      cases there
      exact h.coerce _ _ (hx.1 e' result)
  refine (h.deferred hu coerced).bind fun body v hv huv hbody => ?_
  refine (Keeps.read hv).bind fun options w hw _ same => ?_
  obtain ⟨rfl, rfl⟩ := same
  refine .pure hw ⟨rfl, ?_, hcaptures.2, ?_⟩
  · rw [List.forall_mem_append, List.forall_mem_map, List.forall_mem_singleton]
    exact ⟨fun q mem => h.later huv (h.later htu (hcaptures.1 q mem)), h.keepTail _ hbody⟩
  · obtain ⟨t', leads, scope⟩ := hx.2
    exact ⟨_, t', leads, Closure.retains_refineAll captures c.scope, scope⟩

theorem compileCall (hs : pact.holds s) {site : CallSite} {args : List Expr}
    (target : prepared s.registry site.target) (parts : ∀ p ∈ args, made s.registry p) :
    pact.Makes made o s (Compile.compileCall simplify site args)
      (Compile.compileCall simplify' site args) := by
  refine (Keeps.entryOf hs site.target).bind fun entry t ht _ same => ?_
  obtain ⟨-, rfl⟩ := same
  dsimp only
  split
  · rw [Computation.throw_bind, Computation.throw_bind]
    exact .throw ht
  · refine h.simplifies ht nofun nofun (fun id use => ?_) parts
    rw [← beq_iff_eq.1 use]
    exact target

mutual
theorem compileWith : (e : Expr) → (s : CompileState) → pact.holds s → raw e →
    pact.Makes made o s (e.compileWith simplify prepare) (e.compileWith simplify' prepare')
  | .value _, s, hs, he | .focus _, s, hs, he | .error _, s, hs, he =>
    .pure hs (h.ready _ he trivial)
  | .var ref, s, hs, _ => h.compileRef hs ref
  | .letIn id slot bound body, s, hs, he => by
    refine (compileWith bound s hs (h.part he (by simp [Expr.parts]))).bind fun bound' t ht hst hbound => ?_
    refine (h.refined ht id _).bind fun _ u hu htu _ => ?_
    refine (compileWith body u hu (h.part he (by simp [Expr.parts]))).bind fun body' v hv huv hbody => ?_
    exact h.simplifies hv nofun nofun nofun
      (by simpa [Expr.parts] using ⟨h.later huv (h.later htu hbound), hbody⟩)
  | .branch cond yes no span, s, hs, he => by
    refine (compileWith cond s hs (h.part he (by simp [Expr.parts]))).bind fun cond' t ht hst hcond => ?_
    refine (compileWith yes t ht (h.part he (by simp [Expr.parts]))).bind fun yes' u hu htu hyes => ?_
    refine (compileWith no u hu (h.part he (by simp [Expr.parts]))).bind fun no' v hv huv hno => ?_
    exact h.simplifies hv nofun nofun nofun
      (by simpa [Expr.parts] using ⟨h.later huv (h.later htu hcond), h.later huv hyes, hno⟩)
  | .arith op lhs rhs span, s, hs, he | .compare op lhs rhs span, s, hs, he => by
    refine (compileWith lhs s hs (h.part he (by simp [Expr.parts]))).bind fun lhs' t ht hst hl => ?_
    refine (compileWith rhs t ht (h.part he (by simp [Expr.parts]))).bind fun rhs' u hu htu hr => ?_
    exact h.simplifies hu nofun nofun nofun (by simpa [Expr.parts] using ⟨h.later htu hl, hr⟩)
  | .seq items, s, hs, he => by
    refine (compileList items s hs fun x mem => h.part he mem).bind fun items' t ht hst hitems => ?_
    exact h.simplifies ht nofun nofun nofun hitems
  | .treat expr type span, s, hs, he => by
    refine (compileWith expr s hs (h.part he (by simp [Expr.parts]))).bind fun expr' t ht hst hexpr => ?_
    exact h.simplifies ht nofun nofun nofun (by simpa [Expr.parts] using hexpr)
  | .builtin function args span, s, hs, he => by
    refine (compileList args s hs fun x mem => h.part he mem).bind fun args' t ht hst hargs => ?_
    exact h.simplifies ht nofun nofun nofun hargs
  | .closure c, s, hs, he => by
    rw [Expr.compileWith, Expr.compileWith]
    split
    · rename_i compiled
      exact .pure hs (h.ready _ he compiled)
    · refine (closure c s hs fun p mem => h.part he mem).bind fun c' t ht _ hc => ?_
      exact h.simplifies ht nofun nofun nofun hc.parts
  | .literal site c, s, hs, he => by
    rw [Expr.compileWith, Expr.compileWith]
    split
    · rename_i compiled
      exact .pure hs (h.ready _ he compiled)
    · refine (h.prepares he (beq_self_eq_true site.target) hs).bind fun _ t ht _ target => ?_
      refine (Keeps.entryOf ht site.target).bind fun entry u hu _ same => ?_
      obtain ⟨found, rfl⟩ := same
      refine (closureAs entry c u hu fun p mem => h.part he mem).bind fun c' v hv huv hc => ?_
      exact h.literals he hu found huv hv (h.remains huv target) hc
  | .partialApply site target args, s, hs, he => by
    refine (compileWith target s hs (h.part he (by simp [Expr.parts]))).bind
      fun target' t ht hst htarget => ?_
    refine (compileList args t ht fun x mem => h.part he (by simp [Expr.parts, mem])).bind
      fun args' u hu htu hargs => ?_
    exact h.simplifies hu nofun nofun nofun (List.forall_mem_cons.2 ⟨h.later htu htarget, hargs⟩)
  | .call site args, s, hs, he => by
    refine (compileList args s hs fun x mem => h.part he mem).bind fun args' t ht hst hargs => ?_
    refine (h.prepares he (beq_self_eq_true site.target) ht).bind fun _ u hu htu target => ?_
    exact h.compileCall hu target fun p mem => h.later htu (hargs p mem)
  | .dynamicCall site callee args, s, hs, he => by
    refine (compileWith callee s hs (h.part he (by simp [Expr.parts]))).bind
      fun callee' t ht hst hcallee => ?_
    refine (compileList args t ht fun x mem => h.part he (by simp [Expr.parts, mem])).bind
      fun args' u hu htu hargs => ?_
    exact h.simplifies hu nofun nofun nofun (List.forall_mem_cons.2 ⟨h.later htu hcallee, hargs⟩)

theorem compileList : (es : List Expr) → (s : CompileState) → pact.holds s → (∀ e ∈ es, raw e) →
    pact.Keeps o s (QueryFunctions.compileList simplify prepare es)
      (QueryFunctions.compileList simplify' prepare' es) fun es' t => ∀ e ∈ es', made t.registry e
  | [], s, hs, _ => .pure hs nofun
  | e :: es, s, hs, all => by
    refine (compileWith e s hs (all e (by simp))).bind fun e' t ht hst he => ?_
    refine (compileList es t ht fun x mem => all x (by simp [mem])).bind
      fun es' u hu htu hes => .pure hu ?_
    exact List.forall_mem_cons.2 ⟨h.later htu he, hes⟩

theorem closure : (c : Closure) → (s : CompileState) → pact.holds s →
    (∀ p ∈ c.captures.map Prod.snd ++ [c.body], raw p) →
    pact.Keeps o s (c.compileWith simplify prepare) (c.compileWith simplify' prepare') fun c' t =>
      c.Becomes pact (made t.registry) c'
  | ⟨_, _, body, _, _, _, captures, _, _, _⟩, s, hs, hc => by
    simp only [Closure.compileWith]
    refine h.compileParts (compileSupplies captures s hs fun q mem => ?_)
      fun t ht => compileWith body t ht (hc body (by simp))
    exact hc q.2 (List.mem_append_left _ (List.mem_map_of_mem mem))

theorem closureAs (target : Entry) : (c : Closure) → (s : CompileState) → pact.holds s →
    (∀ p ∈ c.captures.map Prod.snd ++ [c.body], raw p) →
    pact.Keeps o s (c.compileAs target simplify prepare) (c.compileAs target simplify' prepare')
      fun c' t => (c.adaptTo target).Becomes pact (made t.registry) c'
  | ⟨_, _, body, _, _, _, captures, _, _, _⟩, s, hs, hc => by
    simp only [Closure.compileAs_eq]
    refine h.compileParts (compileSupplies captures s hs fun q mem => ?_)
      fun t ht => compileWith body t ht (hc body (by simp))
    exact hc q.2 (List.mem_append_left _ (List.mem_map_of_mem mem))

theorem compileSupplies : (es : List (VarId × Expr)) → (s : CompileState) → pact.holds s →
    (∀ q ∈ es, raw q.2) →
    pact.Keeps o s (QueryFunctions.compileSupplies simplify prepare es)
      (QueryFunctions.compileSupplies simplify' prepare' es) fun es' t =>
        (∀ q ∈ es', made t.registry q.2) ∧ (es = [] → es' = [])
  | [], s, hs, _ => .pure hs ⟨nofun, fun _ => rfl⟩
  | (id, e) :: es, s, hs, all => by
    refine (compileWith e s hs (all (id, e) (by simp))).bind fun e' t ht hst he => ?_
    refine (compileSupplies es t ht fun x mem => all x (by simp [mem])).bind
      fun es' u hu htu hes => .pure hu ⟨?_, nofun⟩
    exact List.forall_mem_cons.2 ⟨h.later htu he, hes.1⟩
end

end Compilers

end Pact

end QueryFunctions
