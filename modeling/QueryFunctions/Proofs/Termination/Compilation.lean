import QueryFunctions.Proofs.Compile.Code
import QueryFunctions.Proofs.Termination.State

/-! Code as built compiles to tame code, given that the functions that it calls get prepared. A call of a
function that is expanded gives way to tame code without any; other calls are of closed functions. -/
namespace QueryFunctions

open Contract

/-- A budget and an alarm decide how far the simplifier gets. -/
abbrev Watched (α : Type) := (Compile Expr → Compile Expr) → Nat → Compile α

variable {o : Options} {origins : Finset Origin} {depth : Nat} {busy : FuncId → Prop}
  {s : CompileState} {e : Expr}

theorem Expr.TameAt.node (own : e.kind.Fits (s.registry.terms o origins) [] s.supply.nextVar)
    (constant : ∀ v, e.kind ≠ .value v) (parts : ∀ p ∈ e.parts, p.TameAt o origins s) :
    e.TameAt o origins s := Expr.tame_iff.2 ⟨⟨own, fun v same => absurd same (constant v)⟩, parts⟩

namespace Compile

theorem simplifies_above (s : CompileState) (o : Options) (origins : Finset Origin) (weight : Weight) :
    ∃ limit, SimplifierSettles (s.registry.terms o origins) s.registry o [] limit (Expr.watched []) ∧
      weight.IsDershowitzMannaLT limit := by
  refine ⟨{bottomRank} + weight, Expr.watched_simplifies (s.registry.upheld_terms o origins) _ [], ?_⟩
  rw [← zero_add weight, ← add_assoc, add_zero]
  exact Weight.replaced_lt (le_refl _) (by simp)

theorem simplified_settles (hs : s.Tame o origins depth busy) (he : e.TameAt o origins s) :
    (tameContract o origins depth busy).Settles o s (fun alarm n => Expr.watched [] alarm n e)
      fun e' t => e'.TameAt o origins t := by
  obtain ⟨limit, simplifies, light⟩ := simplifies_above s o origins (e.weight origins)
  refine (Settles.simplified hs (simplifies.layered [] 0 e s (List.Subset.refl _) (Nat.zero_le _) rfl
    (.code he) light)).mono fun e' t _ _ ⟨made, registry⟩ => ?_
  unfold Expr.TameAt
  rw [registry]
  exact made.1.tame (List.Subset.refl _) (Nat.zero_le _)

theorem call_settles {site : CallSite} {args : List Expr} (hs : s.Tame o origins depth busy)
    (prepared : s.registry.Prepared site.target) (hargs : ∀ e ∈ args, e.TameAt o origins s) :
    (tameContract o origins depth busy).Settles o s
      (fun alarm n => Expr.watched [] alarm n (.call site args)) fun e t => e.TameAt o origins t := by
  obtain ⟨entry, found, how⟩ := prepared
  have stays : entry.inlinable o = false → (Expr.call site args).TameAt o origins s := fun no =>
    .node ⟨entry, found, how.elim (fun compiled => .inr ⟨compiled, no⟩) .inl⟩ (by rintro _ ⟨⟩) hargs
  have settles : (simplifyContract s.registry).Settles o s
      (fun alarm n => simplifyCall (Expr.watched [] alarm n) site args) fun e t =>
        e.Tame (s.registry.terms o origins) [] t.supply.nextVar := by
    refine Settles.keeps_bind (Keeps.entryOf rfl fun _ => by simp [simplifyContract])
      fun x t ht hst here => ?_
    obtain ⟨here, rfl⟩ := here
    cases found.symm.trans here
    cases present : entry.body with
    | none => exact Settles.pure ht (stays (by simp [Entry.inlinable, present]))
    | some body =>
      refine Settles.keeps_bind (Keeps.read ht) fun _ u hu _ same => ?_
      obtain ⟨rfl, rfl⟩ := same
      cases inlined : entry.inlinable _ with
      | false =>
        simp only [Bool.false_eq_true, if_false]
        exact Settles.pure hu (stays inlined)
      | true =>
        simp only [if_true]
        have compiled : entry.stage ≠ .pending := by
          intro pending
          simp [Entry.inlinable, pending] at inlined
        refine Settles.bind (expand_settles rfl entry.scope
          (hs.tame _ _ _ found compiled present) (fun x mem => hargs _ (List.of_mem_zip mem).2)
          (List.Subset.refl []) (List.Subset.refl []) site.span
          fun body' _ => simplifies_above _ _ origins _) fun e' v hv _ made => Settles.pure hv ?_
        exact made.1.keepTail site.tail
  refine (Settles.simplified hs (settles.spend fun alarm n => Expr.simplifyWatched_of_none rfl)).mono
    fun e' t _ _ settled => ?_
  obtain ⟨made, registry⟩ := settled
  unfold Expr.TameAt
  rw [registry]
  exact made

theorem compileRef_settles (hs : s.Tame o origins depth busy) (ref : VarRef)
    (he : (Expr.var ref).TameAt o origins s) :
    (tameContract o origins depth busy).Settles o s
      (fun (_ : Compile Expr → Compile Expr) _ => compileRef ref) fun e t => e.TameAt o origins t := by
  refine Settles.of_keeps (Keeps.bind (Keeps.get hs) fun _ t ht _ same => ?_)
  obtain ⟨rfl, rfl⟩ := same
  split
  · exact Keeps.pure ht (.node (Expr.tame_iff.1 he).1.fits (by rintro _ ⟨⟩) (List.forall_mem_nil _))
  · exact Keeps.pure ht he

theorem modifyScope_settles (hs : s.Tame o origins depth busy) (f : Scope → Scope) :
    (tameContract o origins depth busy).Keeps o s (modifyScope f) fun _ _ => True := by
  obtain ⟨ht, hst⟩ := hs.later (t := { s with scope := f s.scope }) rfl (Nat.le_refl _)
  exact Keeps.of_eq rfl ht hst trivial

end Compile

def Prepares (o : Options) (origins : Finset Origin) (depth : Nat) (busy : FuncId → Prop)
    (prepare : (Compile Expr → Compile Expr) → Nat → FuncId → Compile Unit) : Prop :=
  ∀ (id : FuncId) (s : CompileState), s.Tame o origins depth busy →
    (tameContract o origins depth busy).Settles o s (fun alarm n => prepare alarm n id) fun _ t =>
      t.registry.Prepared id

theorem Closure.compileParts_settles {c : Closure} (hs : s.Tame o origins depth busy)
    (origin : c.origin ∈ origins) {supplies : Watched (List (VarId × Expr))} {body : Watched Expr}
    (hsupplies : (tameContract o origins depth busy).Settles o s supplies fun es t =>
      ∀ e ∈ es.map Prod.snd, e.TameAt o origins t)
    (hbody : ∀ t : CompileState, t.Tame o origins depth busy → CompileState.Narrows o s t →
      (tameContract o origins depth busy).Settles o t body fun e u => e.TameAt o origins u) :
    (tameContract o origins depth busy).Settles o s
      (fun alarm n => c.compileParts (supplies alarm n) (body alarm n)) fun c' t =>
        (Expr.closure c').TameAt o origins t := by
  refine Settles.bind hsupplies fun captures t ht hst hcaptures => ?_
  have inside (t : CompileState) (scope : Scope) (ht : t.Tame o origins depth busy) :=
    ht.later (t := { t with scope }) rfl (Nat.le_refl _)
  refine Settles.bind ((hbody _ (inside t _ ht).1 (hst.trans (inside t _ ht).2)).inScope
    (fun u scope hu => (inside u scope hu).1) fun _ _ _ _ h => ⟨h.supply, h.pending, h.closed⟩)
    fun x u hu htu hx => Settles.of_keeps ?_
  have made : (tameContract o origins depth busy).Keeps o u
      (Compile.deferred (x.1.map (·.coerce c.declared c.span))) fun e v =>
        e.TameAt o origins u ∧ v = u := by
    refine Keeps.deferred hu (fun e coerced => ?_) fun err _ => ⟨trivial, .node trivial nofun nofun, rfl⟩
    cases result : x.1 with
    | error err => rw [result] at coerced; cases coerced
    | ok e' =>
      rw [result] at coerced
      cases coerced
      exact ⟨Expr.Tame.coerce (hx.1 e' result) _ _, rfl⟩
  refine Keeps.bind made fun body v hv _ hbody => ?_
  obtain ⟨hbody, rfl⟩ := hbody
  refine Keeps.bind (Keeps.read hv) fun options w hw _ same => ?_
  obtain ⟨rfl, rfl⟩ := same
  refine Keeps.pure hw (.node origin nofun fun p mem => ?_)
  rcases List.mem_append.1 mem with capture | body
  · exact (hcaptures p capture).later htu
  · exact List.mem_singleton.1 body ▸ Expr.Tame.keepTail hbody _

section

variable {prepare : (Compile Expr → Compile Expr) → Nat → FuncId → Compile Unit}
  (prepares : Prepares o origins depth busy prepare)

mutual
theorem Expr.compileWith_settles (prepares : Prepares o origins depth busy prepare) :
    (e : Expr) → (s : CompileState) → s.Tame o origins depth busy →
    e.Built origins s.supply.nextVar → (tameContract o origins depth busy).Settles o s
      (fun alarm n => e.compileWith (Expr.watched [] alarm n) (prepare alarm n)) fun e' t =>
        e'.TameAt o origins t
  | .value v, s, hs, he => by
    refine Settles.pure hs (Expr.tame_value_iff.2 ?_)
    exact (he.kind.value v rfl).mono ⟨rfl, fun _ => False.elim⟩ (Nat.le_refl _)
  | .focus _, s, hs, he | .error _, s, hs, he => Settles.pure hs (.node trivial nofun nofun)
  | .var ref, s, hs, he => Compile.compileRef_settles hs ref (.node he.kind.fits nofun nofun)
  | .letIn id slot bound body, s, hs, he => by
    refine Settles.bind (bound.compileWith_settles prepares s hs (he.part (by simp [Expr.parts])))
      fun bound' t ht hst hbound => ?_
    refine Settles.keeps_bind (Compile.modifyScope_settles ht _) fun _ u hu htu _ => ?_
    have hsu := hst.trans htu
    refine Settles.bind
      (body.compileWith_settles prepares u hu ((he.part (by simp [Expr.parts])).later hsu.supply))
      fun body' v hv huv hbody => ?_
    refine Compile.simplified_settles hv (.node trivial nofun ?_)
    simpa [Expr.parts] using And.intro (hbound.later (htu.trans huv)) hbody
  | .branch cond yes no span, s, hs, he => by
    refine Settles.bind (cond.compileWith_settles prepares s hs (he.part (by simp [Expr.parts])))
      fun cond' t ht hst hcond => ?_
    refine Settles.bind
      (yes.compileWith_settles prepares t ht ((he.part (by simp [Expr.parts])).later hst.supply))
      fun yes' u hu htu hyes => ?_
    have hsu := hst.trans htu
    refine Settles.bind
      (no.compileWith_settles prepares u hu ((he.part (by simp [Expr.parts])).later hsu.supply))
      fun no' v hv huv hno => ?_
    refine Compile.simplified_settles hv (.node trivial nofun ?_)
    simpa [Expr.parts] using ⟨hcond.later (htu.trans huv), hyes.later huv, hno⟩
  | .arith op lhs rhs span, s, hs, he | .compare op lhs rhs span, s, hs, he => by
    refine Settles.bind (lhs.compileWith_settles prepares s hs (he.part (by simp [Expr.parts])))
      fun lhs' t ht hst hlhs => ?_
    refine Settles.bind
      (rhs.compileWith_settles prepares t ht ((he.part (by simp [Expr.parts])).later hst.supply))
      fun rhs' u hu htu hrhs => ?_
    refine Compile.simplified_settles hu (.node trivial nofun ?_)
    simpa [Expr.parts] using And.intro (hlhs.later htu) hrhs
  | .treat expr type span, s, hs, he => by
    refine Settles.bind (expr.compileWith_settles prepares s hs (he.part (by simp [Expr.parts])))
      fun expr' t ht hst hexpr => ?_
    exact Compile.simplified_settles ht (.node trivial nofun (by simpa [Expr.parts] using hexpr))
  | .seq es, s, hs, he | .builtin _ es _, s, hs, he => by
    refine Settles.bind (compileList_settles prepares es s hs fun x mem => he.part mem)
      fun es' t ht hst hes => ?_
    exact Compile.simplified_settles ht (.node trivial nofun hes)
  | .closure c, s, hs, he => by
    have raw : c.compiled = false := he.kind.raw _ _ _ rfl
    simp only [Expr.compileWith, raw, Bool.false_eq_true, if_false]
    exact Settles.bind (c.compileWith_settles prepares s hs he) fun c' t ht _ hc =>
      Compile.simplified_settles ht hc
  | .literal site c, s, hs, he => by
    have raw : c.compiled = false := he.kind.raw _ _ _ rfl
    simp only [Expr.compileWith, raw, Bool.false_eq_true, if_false]
    refine Settles.bind (prepares site.target s hs) fun _ t ht hst _ => ?_
    refine Settles.keeps_bind (Keeps.entryOf ht fun _ => by simp [tameContract])
      fun target u hu htu _ => ?_
    have hc : (Expr.closure c).Built origins u.supply.nextVar :=
      he.later (hst.trans htu).supply
    exact Settles.bind (c.compileAs_settles prepares target u hu hc) fun c' v hv _ hc =>
      Compile.simplified_settles hv hc
  | .partialApply site target args, s, hs, he => by
    refine Settles.bind (target.compileWith_settles prepares s hs (he.part (by simp [Expr.parts])))
      fun target' t ht hst htarget => ?_
    refine Settles.bind (compileList_settles prepares args t ht fun x mem =>
      (he.part (by simp [Expr.parts, mem])).later hst.supply) fun args' u hu htu hargs => ?_
    exact Compile.simplified_settles hu (.node trivial nofun
      (List.forall_mem_cons.2 ⟨htarget.later htu, hargs⟩))
  | .call site args, s, hs, he => by
    refine Settles.bind (compileList_settles prepares args s hs fun x mem => he.part mem)
      fun args' t ht hst hargs => ?_
    refine Settles.bind (prepares site.target t ht) fun _ u hu htu prepared => ?_
    refine Settles.keeps_bind (Keeps.entryOf hu fun _ => by simp [tameContract])
      fun target v hv huv here => ?_
    obtain ⟨-, rfl⟩ := here
    dsimp only
    split
    · exact Settles.refuse hv trivial
    · exact Compile.call_settles hv prepared fun x mem => (hargs x mem).later htu
  | .dynamicCall site callee args, s, hs, he => by
    refine Settles.bind (callee.compileWith_settles prepares s hs (he.part (by simp [Expr.parts])))
      fun callee' t ht hst hcallee => ?_
    refine Settles.bind (compileList_settles prepares args t ht fun x mem =>
      (he.part (by simp [Expr.parts, mem])).later hst.supply) fun args' u hu htu hargs => ?_
    exact Compile.simplified_settles hu (.node (List.nil_subset _) nofun
      (List.forall_mem_cons.2 ⟨hcallee.later htu, hargs⟩))

theorem compileList_settles (prepares : Prepares o origins depth busy prepare) :
    (es : List Expr) → (s : CompileState) → s.Tame o origins depth busy →
    (∀ e ∈ es, e.Built origins s.supply.nextVar) → (tameContract o origins depth busy).Settles o s
      (fun alarm n => compileList (Expr.watched [] alarm n) (prepare alarm n) es) fun es' t =>
        ∀ e ∈ es', e.TameAt o origins t
  | [], s, hs, _ => Settles.pure hs nofun
  | e :: es, s, hs, all => by
    refine Settles.bind (e.compileWith_settles prepares s hs (all e (by simp))) fun e' t ht hst he => ?_
    refine Settles.bind (compileList_settles prepares es t ht fun x mem =>
      (all x (by simp [mem])).later hst.supply) fun es' u hu htu hes => Settles.pure hu ?_
    exact List.forall_mem_cons.2 ⟨he.later htu, hes⟩

theorem Closure.compileWith_settles (prepares : Prepares o origins depth busy prepare) :
    (c : Closure) → (s : CompileState) →
    s.Tame o origins depth busy → (Expr.closure c).Built origins s.supply.nextVar →
    (tameContract o origins depth busy).Settles o s
      (fun alarm n => c.compileWith (Expr.watched [] alarm n) (prepare alarm n)) fun c' t =>
        (Expr.closure c').TameAt o origins t
  | ⟨_, _, body, _, _, _, captures, _, _, _⟩, s, hs, hc => by
    have supplies := compileSupplies_settles prepares captures s hs fun x mem =>
      hc.part (List.mem_append_left _ mem)
    simp only [Closure.compileWith]
    refine Closure.compileParts_settles hs hc.kind.fits supplies fun t ht hst => ?_
    exact body.compileWith_settles prepares t ht ((hc.part (by simp [Expr.parts])).later hst.supply)

theorem Closure.compileAs_settles (prepares : Prepares o origins depth busy prepare) (target : Entry) :
    (c : Closure) → (s : CompileState) →
    s.Tame o origins depth busy → (Expr.closure c).Built origins s.supply.nextVar →
    (tameContract o origins depth busy).Settles o s
      (fun alarm n => c.compileAs target (Expr.watched [] alarm n) (prepare alarm n)) fun c' t =>
        (Expr.closure c').TameAt o origins t
  | ⟨_, _, body, _, _, _, captures, _, _, _⟩, s, hs, hc => by
    have supplies := compileSupplies_settles prepares captures s hs fun x mem =>
      hc.part (List.mem_append_left _ mem)
    simp only [Closure.compileAs_eq]
    refine Closure.compileParts_settles hs ?_ supplies fun t ht hst => ?_
    · exact hc.kind.fits
    exact body.compileWith_settles prepares t ht ((hc.part (by simp [Expr.parts])).later hst.supply)

theorem compileSupplies_settles (prepares : Prepares o origins depth busy prepare) :
    (es : List (VarId × Expr)) → (s : CompileState) →
    s.Tame o origins depth busy → (∀ e ∈ es.map Prod.snd, e.Built origins s.supply.nextVar) →
    (tameContract o origins depth busy).Settles o s
      (fun alarm n => compileSupplies (Expr.watched [] alarm n) (prepare alarm n) es) fun es' t =>
        ∀ e ∈ es'.map Prod.snd, e.TameAt o origins t
  | [], s, hs, _ => Settles.pure hs (by simp)
  | (id, e) :: es, s, hs, all => by
    refine Settles.bind (e.compileWith_settles prepares s hs (all e (by simp))) fun e' t ht hst he => ?_
    refine Settles.bind (compileSupplies_settles prepares es t ht fun x mem =>
      (all x (List.mem_cons_of_mem _ mem)).later hst.supply) fun es' u hu htu hes => Settles.pure hu ?_
    exact List.forall_mem_cons.2 ⟨he.later htu, hes⟩
end

end

end QueryFunctions
