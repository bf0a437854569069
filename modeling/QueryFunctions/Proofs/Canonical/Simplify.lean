import QueryFunctions.Compile.Simplify
import QueryFunctions.Proofs.Canonical.Basic
import QueryFunctions.Proofs.Compile.Substitution
import QueryFunctions.Proofs.Law.Compiling

/-! The simplifier makes canonical constants. Where it puts a constant in place of a variable or a body in
place of a call, what it inserts is canonical already, and what it computes is canonical by the rules of
folding. -/
namespace QueryFunctions

def Registry.Canonical (r : Registry) : Prop :=
  ∀ id entry, r.find? id = some entry → ∀ body, entry.body = some body → body.Canonical

def canonicalPact : Pact CompileState where
  holds s := s.registry.Canonical
  leads _ _ := True
  refl _ := trivial
  trans _ _ := trivial
  near _ := True
  back _ := id

/-- Functions keep canonical bodies, and what is made satisfies `post`. -/
abbrev Compile.Refines {α : Type} (o : Options) (s : CompileState) (act : Compile α) (post : α → Prop) :
    Prop :=
  canonicalPact.Keeps o s act act fun a _ => post a

def SimplifierRefines (o : Options) (simplify : Expr → Compile Expr) : Prop :=
  ∀ e s, s.registry.Canonical → e.Canonical → Compile.Refines o s (simplify e) Expr.Canonical

variable {o : Options} {s : CompileState} {α : Type}

namespace Compile

theorem canonical_stable (q : VarId × Expr) (s t : CompileState) (_ : canonicalPact.leads s t)
    (canonical : q.2.Canonical) : q.2.Canonical := canonical

theorem draw_refines (hs : s.registry.Canonical) {act : Supplied α} {post : α → Prop}
    (drawn : ∀ a t, act s.supply = .ok (a, t) → post a) : Refines o s (draw act) post := by
  cases run : act s.supply with
  | error f => exact .same (.of_fault (f := f) (t := s) (by simp only [draw, run]))
  | ok p =>
    have kept : ({ s with supply := p.2 } : CompileState).registry.Canonical := hs
    exact .of_eq (by simp only [draw, run]) kept trivial (drawn _ _ run)

theorem ofFaulty_refines (hs : s.registry.Canonical) (result : Except Fault α) :
    Refines o s (ofFaulty result) fun _ => True := by
  cases result with
  | ok a => exact .pure hs trivial
  | error f => exact .same (.of_fault rfl)

theorem deferred_refines (hs : s.registry.Canonical) {result : Except QueryError Expr}
    (value : ∀ e, result = .ok e → e.Canonical) : Refines o s (deferred result) Expr.Canonical :=
  Pact.Keeps.deferred hs value fun err => Expr.canonical_error err

theorem inScope_refines (inner : Scope) {act : Compile α} {post : α → Prop}
    (made : Refines o { s with scope := inner } act post) :
    Refines o s (inScope inner act) fun x => ∀ a, x.1 = .ok a → post a := by
  refine (Pact.Keeps.inScope inner made (fun t ht _ => ⟨ht, trivial⟩) fun _ => id).mono
    fun x u _ _ ending => ?_
  obtain ⟨t, -, -, -, value⟩ := ending
  exact value

theorem refuse_refines {β : Type} {err : QueryError} {next : α → Compile β} {post : β → Prop}
    (hs : s.registry.Canonical) : Refines o s (throw err >>= next) post := by
  rw [Computation.throw_bind]
  exact .throw hs

end Compile

section

variable {simplify : Expr → Compile Expr} (simplifies : SimplifierRefines o simplify)

section Substitution

variable {x : Substitution}

theorem whereUsed_refines {e : Expr} {rewritten : Compile Expr} (hs : s.registry.Canonical)
    (he : e.Canonical) (made : Compile.Refines o s rewritten Expr.Canonical) :
    Compile.Refines o s (whereUsed x e rewritten) Expr.Canonical := by
  unfold whereUsed
  split
  · exact made
  · exact .pure hs he

include simplifies

/-- An expression that is neither a constant nor left as it is, made anew of canonical parts. -/
theorem SimplifierRefines.remade {e : Expr} (hs : s.registry.Canonical) (code : ∀ v, e ≠ .value v)
    (parts : ∀ p ∈ e.parts, p.Canonical) : Compile.Refines o s (simplify e) Expr.Canonical :=
  simplifies e s hs ((Expr.canonical_iff_parts code).2 parts)

variable (new : x.new.Canonical)

omit simplifies

mutual
theorem Expr.substitute_refines (simplifies : SimplifierRefines o simplify) (new : x.new.Canonical) :
    (e : Expr) → (s : CompileState) → s.registry.Canonical → e.Canonical →
    Compile.Refines o s (e.substitute simplify x) Expr.Canonical
  | .value _, _, hs, he | .focus _, _, hs, he | .error _, _, hs, he | .literal _ _, _, hs, he =>
    .pure hs he
  | .var ref, _, hs, he => by
    refine .pure hs ?_
    split
    · exact new
    · exact he
  | .letIn id slot bound body, s, hs, he => by
    refine whereUsed_refines hs he ?_
    refine (bound.substitute_refines simplifies new s hs (he.part (by simp [Expr.parts]))).bind
      fun bound' t ht _ hbound => ?_
    refine (body.substitute_refines simplifies new t ht (he.part (by simp [Expr.parts]))).bind
      fun body' u hu _ hbody => ?_
    exact simplifies.remade hu (by nofun) (by simpa [Expr.parts] using ⟨hbound, hbody⟩)
  | .branch cond yes no span, s, hs, he => by
    refine whereUsed_refines hs he ?_
    refine (cond.substitute_refines simplifies new s hs (he.part (by simp [Expr.parts]))).bind
      fun cond' t ht _ hcond => ?_
    refine (yes.substitute_refines simplifies new t ht (he.part (by simp [Expr.parts]))).bind
      fun yes' u hu _ hyes => ?_
    refine (no.substitute_refines simplifies new u hu (he.part (by simp [Expr.parts]))).bind
      fun no' v hv _ hno => ?_
    exact simplifies.remade hv (by nofun) (by simpa [Expr.parts] using ⟨hcond, hyes, hno⟩)
  | .arith op lhs rhs span, s, hs, he | .compare op lhs rhs span, s, hs, he => by
    refine whereUsed_refines hs he ?_
    refine (lhs.substitute_refines simplifies new s hs (he.part (by simp [Expr.parts]))).bind
      fun lhs' t ht _ hl => ?_
    refine (rhs.substitute_refines simplifies new t ht (he.part (by simp [Expr.parts]))).bind
      fun rhs' u hu _ hr => ?_
    exact simplifies.remade hu (by nofun) (by simpa [Expr.parts] using ⟨hl, hr⟩)
  | .seq es, s, hs, he | .builtin _ es _, s, hs, he | .call _ es, s, hs, he => by
    refine whereUsed_refines hs he ?_
    refine (substituteList_refines simplifies new es s hs fun p mem => he.part mem).bind
      fun es' t ht _ hes => ?_
    exact simplifies.remade ht (by nofun) hes
  | .treat expr type span, s, hs, he => by
    refine whereUsed_refines hs he ?_
    refine (expr.substitute_refines simplifies new s hs (he.part (by simp [Expr.parts]))).bind
      fun expr' t ht _ hexpr => ?_
    exact simplifies.remade ht (by nofun) (by simpa [Expr.parts] using hexpr)
  | .closure c, s, hs, he => by
    refine whereUsed_refines hs he ?_
    refine (c.substitute_refines simplifies new s hs fun p mem => he.part mem).bind fun c' t ht _ hc => ?_
    exact simplifies.remade ht (by nofun) hc
  | .partialApply site target args, s, hs, he => by
    refine whereUsed_refines hs he ?_
    refine (target.substitute_refines simplifies new s hs (he.part (by simp [Expr.parts]))).bind
      fun target' t ht _ htarget => ?_
    refine (substituteList_refines simplifies new args t ht
      fun p mem => he.part (by simp [Expr.parts, mem])).bind fun args' u hu _ hargs => ?_
    exact simplifies.remade hu (by nofun) (List.forall_mem_cons.2 ⟨htarget, hargs⟩)
  | .dynamicCall site callee args, s, hs, he => by
    refine whereUsed_refines hs he ?_
    refine (callee.substitute_refines simplifies new s hs (he.part (by simp [Expr.parts]))).bind
      fun callee' t ht _ hcallee => ?_
    refine (substituteList_refines simplifies new args t ht
      fun p mem => he.part (by simp [Expr.parts, mem])).bind fun args' u hu _ hargs => ?_
    exact simplifies.remade hu (by nofun) (List.forall_mem_cons.2 ⟨hcallee, hargs⟩)

theorem substituteList_refines (simplifies : SimplifierRefines o simplify) (new : x.new.Canonical) :
    (es : List Expr) → (s : CompileState) → s.registry.Canonical →
    (∀ e ∈ es, e.Canonical) →
    Compile.Refines o s (substituteList simplify x es) fun es' => ∀ e ∈ es', e.Canonical
  | [], _, hs, _ => .pure hs nofun
  | e :: es, s, hs, all => by
    refine (e.substitute_refines simplifies new s hs (all e (by simp))).bind fun e' t ht _ he => ?_
    refine (substituteList_refines simplifies new es t ht fun y mem => all y (by simp [mem])).bind
      fun es' u hu _ hes => ?_
    exact .pure hu (List.forall_mem_cons.2 ⟨he, hes⟩)

theorem Closure.substitute_refines (simplifies : SimplifierRefines o simplify) (new : x.new.Canonical) :
    (c : Closure) → (s : CompileState) → s.registry.Canonical →
    (∀ p ∈ (Expr.closure c).parts, p.Canonical) →
    Compile.Refines o s (c.substitute simplify x) fun c' => ∀ p ∈ (Expr.closure c').parts, p.Canonical
  | ⟨_, _, body, _, _, _, captures, _, _, _⟩, s, hs, hc => by
    refine (substituteSupplies_refines simplifies new captures s hs fun q mem => ?_).bind
      fun captures' t ht _ hcaptures => .pure ht ?_
    · exact hc q.2 (List.mem_append_left _ (List.mem_map_of_mem mem))
    · simp only [Expr.parts, List.forall_mem_append, List.forall_mem_map, List.forall_mem_singleton]
      exact ⟨hcaptures, hc body (by simp [Expr.parts])⟩

theorem substituteSupplies_refines (simplifies : SimplifierRefines o simplify) (new : x.new.Canonical) :
    (es : List (VarId × Expr)) → (s : CompileState) →
    s.registry.Canonical → (∀ q ∈ es, q.2.Canonical) →
    Compile.Refines o s (substituteSupplies simplify x es) fun es' => ∀ q ∈ es', q.2.Canonical
  | [], _, hs, _ => .pure hs nofun
  | (id, e) :: es, s, hs, all => by
    refine (e.substitute_refines simplifies new s hs (all (id, e) (by simp))).bind fun e' t ht _ he => ?_
    refine (substituteSupplies_refines simplifies new es t ht fun y mem => all y (by simp [mem])).bind
      fun es' u hu _ hes => ?_
    exact .pure hu (List.forall_mem_cons.2 ⟨he, hes⟩)
end

end Substitution

include simplifies

namespace Compile

theorem bindValue_refines (hs : s.registry.Canonical) {v : Variable} {value body : Expr} (span : Span)
    (hvalue : value.Canonical) (hbody : body.Canonical) :
    Refines o s (bindValue simplify v value body span) Expr.Canonical := by
  have bound : ∀ (value : Expr) (t : CompileState), t.registry.Canonical → value.Canonical →
      Refines o t (simplify (.letIn v.id v.slot value body)) Expr.Canonical := fun value t ht hvalue =>
    simplifies.remade ht (by nofun) (by simpa [Expr.parts] using ⟨hvalue, hbody⟩)
  unfold bindValue
  dsimp only
  split
  · split
    · exact bound value s hs hvalue
    · refine (simplifies.remade hs (by nofun) (by simpa [Expr.parts] using hvalue)).bind
        fun value' t ht _ hvalue' => ?_
      exact bound value' t ht hvalue'
  · exact bound value s hs hvalue

theorem expand_refines (hs : s.registry.Canonical) (callee : Scope) {body : Expr} (hbody : body.Canonical)
    {bindings : List (VarId × Expr)} (values : ∀ q ∈ bindings, q.2.Canonical) (origins : List Origin)
    (span : Span) :
    Refines o s (expand simplify callee body bindings origins span) Expr.Canonical := by
  have below : ((callee.adoptInto s.scope).run s.supply).1.2.Below (adopting s callee).supply.nextVar :=
    fun id v found => (callee.drawn_adoptInto s.scope s.supply found).2
  have run : expand simplify callee body bindings origins span o s = (do
      let body ← draw (body.copy ((callee.adoptInto s.scope).run s.supply).1.2)
      bindings.reverse.foldlM (fun body q => do
        bindValue simplify (← ofFaulty (((callee.adoptInto s.scope).run s.supply).1.2.require q.1))
          q.2 body span) (body.addOrigins origins) : Compile Expr) o (adopting s callee) := rfl
  refine Pact.Keeps.after run run trivial ?_
  have entered : (adopting s callee).registry.Canonical := hs
  generalize ((callee.adoptInto s.scope).run s.supply).1.2 = table at below
  generalize adopting s callee = start at below entered
  have copies : Refines o start (draw (body.copy table)) Expr.Canonical := by
    refine draw_refines entered fun copied t drawn => ?_
    have copied : Gives (fun _ => True) _ _ _ := body.copy_copied (fun _ => trivial) start.supply below
    rw [Gives, drawn] at copied
    exact hbody.copied copied.2
  refine Pact.Keeps.bind copies fun copied t ht _ hcopied => ?_
  have each : ∀ (body : Expr) (q : VarId × Expr) (t : CompileState), t.registry.Canonical →
      body.Canonical → q.2.Canonical →
      Refines o t (do bindValue simplify (← ofFaulty (table.require q.1)) q.2 body span) Expr.Canonical :=
    fun body q t ht hbody hq => (ofFaulty_refines ht _).skip fun v u hu _ =>
      bindValue_refines simplifies hu span hq hbody
  exact Pact.Keeps.foldlM canonical_stable (fun body q => each body q) bindings.reverse _ t ht
    (hcopied.mapSites _ _) fun q mem => values q (List.mem_reverse.1 mem)

end Compile

namespace Closure

theorem substituteBody_refines {body new : Expr} (id : VarId) (hs : s.registry.Canonical)
    (hbody : body.Canonical) (hnew : new.Canonical) : Compile.Refines o s
      (do Compile.deferred (← Compile.attempt (body.substitute simplify ⟨id, new⟩))) Expr.Canonical :=
  (Pact.Keeps.attempt (body.substitute_refines simplifies hnew s hs hbody)).bind
    fun _ _ ht _ hresult => Compile.deferred_refines ht hresult

theorem propagate_refines {c : Closure} (hs : s.registry.Canonical) (hc : (Expr.closure c).Canonical) :
    Compile.Refines o s (c.propagate simplify) fun c' => (Expr.closure c').Canonical := by
  have supplied : ∀ q ∈ c.captures, q.2.Canonical := fun q mem =>
    hc.part (List.mem_append_left _ (List.mem_map_of_mem mem))
  have own : c.body.Canonical := hc.part (by simp [Expr.parts])
  unfold propagate
  dsimp only
  split
  · exact .pure hs hc
  · have each : ∀ (body : Expr) (q : VarId × Expr) (t : CompileState), t.registry.Canonical →
        body.Canonical → q.2.Canonical → Compile.Refines o t
          (do Compile.deferred (← Compile.attempt (body.substitute simplify ⟨q.1, q.2⟩))) Expr.Canonical :=
      fun body q t ht hbody hq => substituteBody_refines simplifies q.1 ht hbody hq
    refine (Compile.inScope_refines c.scope (Pact.Keeps.foldlM Compile.canonical_stable
      (fun body q => each body q) _ c.body _ hs own
      fun q mem => supplied q (List.mem_filter.1 mem).1)).bind fun x t ht _ hx => ?_
    refine Pact.Keeps.bind (.same (.ofExcept ht)) fun body u hu _ found => ?_
    refine (Pact.Keeps.read hu).skip fun options v hv _ => .pure hv ?_
    refine (Expr.canonical_iff_parts (by nofun)).2 ?_
    simp only [Expr.parts, List.forall_mem_append, List.forall_mem_map, List.forall_mem_singleton]
    exact ⟨fun q mem => supplied q (List.mem_filter.1 mem).1, (hx body found.1).keepTail _⟩

theorem simplifyWith_refines {c : Closure} (hs : s.registry.Canonical)
    (hc : (Expr.closure c).Canonical) :
    Compile.Refines o s (c.simplifyWith simplify) Expr.Canonical := by
  unfold simplifyWith
  split
  · exact .pure hs hc
  · refine (propagate_refines simplifies hs hc).bind fun c' t ht _ hc' => ?_
    split
    · have made : ∀ f u, liftSupply (c'.toItem []) t.supply = .ok (f, u) → f.Canonical := by
        rintro f u ⟨⟩
        exact canonical_toItem (hc'.part (by simp [Expr.parts])) (by simp) t.supply
      refine (Compile.draw_refines ht made).bind fun f u hu _ hf => .pure hu ?_
      exact Expr.canonical_value.2 (Value.canonical_func.2 hf)
    · exact .pure ht hc'

end Closure

namespace Compile

theorem simplifyCall_refines {site : CallSite} {args : List Expr} (hs : s.registry.Canonical)
    (he : (Expr.call site args).Canonical) :
    Refines o s (simplifyCall simplify site args) Expr.Canonical := by
  refine (Pact.Keeps.entryOf hs site.target).bind fun entry t ht _ found => ?_
  obtain ⟨found, rfl⟩ := found
  split
  · rename_i body present
    refine (Pact.Keeps.read ht).skip fun _ u hu _ => ?_
    split
    · refine (expand_refines simplifies hu entry.scope (ht _ entry found body present) (fun q mem => ?_) []
        site.span).bind fun e v hv _ he => .pure hv (he.keepTail _)
      exact he.part (List.of_mem_zip mem).2
    · exact .pure hu he
  · exact .pure ht he

theorem expandClosure_refines {site : DynamicSite} {c : Closure} {args : List Expr}
    (hs : s.registry.Canonical) (hc : ∀ p ∈ (Expr.closure c).parts, p.Canonical)
    (hargs : ∀ e ∈ args, e.Canonical) :
    Refines o s (expandClosure simplify site c args) Expr.Canonical := by
  refine (expand_refines simplifies hs c.scope (hc _ (by simp [Expr.parts])) (fun q mem => ?_) _
    c.span).bind fun e t ht _ he => .pure ht (he.keepTail _)
  rcases List.mem_append.1 mem with arg | capture
  · exact hargs q.2 (List.of_mem_zip arg).2
  · exact hc q.2 (List.mem_append_left _ (List.mem_map_of_mem capture))

omit simplifies

theorem foldPartial_refines (site' : PartialSite) {site : PartialSite} {target : Expr} {args : List Expr}
    (hs : s.registry.Canonical) (he : (Expr.partialApply site target args).Canonical) :
    Refines o s
      (match target, Expr.values? args with
        | .value (.func item), some supplied => do
          return .value (.func (← draw (PartialApplication.make item supplied site'.holes site'.span)))
        | _, _ => return .partialApply site' target args) Expr.Canonical := by
  split
  · rename_i item supplied found
    have hitem : item.Canonical :=
      Value.canonical_func.1 (Expr.canonical_value.1 (he.part (by simp [Expr.parts])))
    have values := Expr.canonical_of_values? (fun e mem => he.part (by simp [Expr.parts, mem])) found
    refine (draw_refines hs fun f u made =>
      (PartialApplication.canonical_make hitem values _ _ _ f u made).2).bind fun f u hu _ hf => .pure hu ?_
    exact Expr.canonical_value.2 (Value.canonical_func.2 hf)
  · exact .pure hs ((Expr.canonical_iff_parts (by rintro _ ⟨⟩)).2 fun p mem => he.part mem)

theorem simplifyPartial_refines {site : PartialSite} {target : Expr} {args : List Expr}
    (hs : s.registry.Canonical) (he : (Expr.partialApply site target args).Canonical) :
    Refines o s (simplifyPartial site target args) Expr.Canonical := by
  unfold simplifyPartial
  dsimp only
  split
  · exact foldPartial_refines site hs he
  · rename_i type _
    split
    · exact refuse_refines hs
    · exact (ofFaulty_refines hs _).skip fun left t ht _ =>
        foldPartial_refines { site with type := some left } ht he

theorem checkCallee_refines (hs : s.registry.Canonical) (site : DynamicSite) (callee : Expr) (arity : Nat) :
    Refines o s (checkCallee site callee arity) fun _ => True := by
  unfold checkCallee
  split
  · exact .pure hs trivial
  · dsimp only
    split
    · exact refuse_refines hs
    · refine (Pact.Keeps.read hs).skip fun _ t ht _ => ?_
      split
      · split
        · exact refuse_refines ht
        · split
          · exact .throw ht
          · exact .pure ht trivial
      · exact .pure ht trivial

include simplifies

theorem simplifyDynamicCall_refines {site : DynamicSite} {callee : Expr} {args : List Expr}
    (hs : s.registry.Canonical) (he : (Expr.dynamicCall site callee args).Canonical) :
    Refines o s (simplifyDynamicCall simplify site callee args) Expr.Canonical := by
  have hcallee : callee.Canonical := he.part (by simp [Expr.parts])
  have hargs : ∀ e ∈ args, e.Canonical := fun e mem => he.part (by simp [Expr.parts, mem])
  have closure : ∀ (c : Closure) (t : CompileState), t.registry.Canonical →
      (∀ p ∈ (Expr.closure c).parts, p.Canonical) → Refines o t
        (if c.inlinable o && !site.inlinedFrom.contains c.origin then
          expandClosure simplify site c args
        else return .dynamicCall site callee args) Expr.Canonical := by
    intro c t ht hc
    split
    · exact expandClosure_refines simplifies ht hc hargs
    · exact .pure ht he
  refine (checkCallee_refines hs site callee args.length).skip fun _ t ht _ => ?_
  refine (Pact.Keeps.read ht).bind fun _ u hu _ same => ?_
  obtain ⟨rfl, rfl⟩ := same
  split
  · rename_i item
    have hitem := Value.canonical_func.1 (Expr.canonical_value.1 hcallee)
    split
    · exact simplifies.remade hu (by rintro _ ⟨⟩) hargs
    · rename_i params captured body scope code
      obtain ⟨hcaptured, hbody⟩ := hitem _ _ _ _ code
      split
      · refine (expand_refines simplifies hu scope hbody (fun q mem => ?_) _ site.span).bind
          fun e v hv _ he => .pure hv (he.keepTail _)
        rcases List.mem_append.1 mem with arg | capture
        · exact hargs q.2 (List.of_mem_zip arg).2
        · obtain ⟨x, hx, rfl⟩ := List.mem_map.1 capture
          exact Expr.canonical_value.2 (hcaptured x hx)
      · exact .pure hu he
  · rename_i c
    exact closure c u hu fun p mem => hcallee.part mem
  · rename_i c
    exact closure c u hu fun p mem => hcallee.part mem
  · exact .pure hu he

end Compile

theorem Expr.simplifyWith_refines {e : Expr} (hs : s.registry.Canonical) (he : e.Canonical) :
    Compile.Refines o s (e.simplifyWith simplify) Expr.Canonical := by
  cases e with
  | letIn id slot bound body =>
    have hbound : bound.Canonical := he.part (by simp [parts])
    have hbody : body.Canonical := he.part (by simp [parts])
    rw [simplifyWith]
    split
    · exact body.substitute_refines simplifies hbound s hs hbody
    · split
      · exact .pure hs hbody
      · exact .pure hs he
  | branch => exact .pure hs he.foldBranch
  | arith => exact .pure hs he.foldArith
  | compare => exact .pure hs he.foldCompare
  | seq => exact .pure hs he.foldSeq
  | treat => exact .pure hs he.foldTreat
  | builtin => exact .pure hs he.foldBuiltin
  | closure c => exact Closure.simplifyWith_refines simplifies hs he
  | literal site c =>
    have hc : (Expr.closure c).Canonical :=
      (canonical_iff_parts (by nofun)).2 fun p mem => he.part mem
    exact (Closure.simplifyWith_refines simplifies hs hc).bind fun e t ht _ made =>
      .pure ht (made.rewrapLiteral site)
  | partialApply => exact Compile.simplifyPartial_refines hs he
  | call => exact Compile.simplifyCall_refines simplifies hs he
  | dynamicCall => exact Compile.simplifyDynamicCall_refines simplifies hs he
  | value | var | focus | error => exact .pure hs he

end

theorem Expr.simplify_refines (o : Options) (budget : Nat) : SimplifierRefines o (Expr.simplify budget) := by
  induction budget with
  | zero => exact fun _ _ _ _ => .same (.of_fault rfl)
  | succ budget ih => exact fun _ _ hs he => simplifyWith_refines ih hs he

end QueryFunctions
