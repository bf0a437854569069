import QueryFunctions.Proofs.Run.State
import QueryFunctions.Proofs.Standard.Copying

/-! Evaluation under the law of a run: code that meets the standard does what it is allowed to, as
long as the calls that it makes do. -/
namespace QueryFunctions

variable {d : Standard} {a : Allowance} {r : RunSetting} {s : RunState}

namespace FuncItem

theorem checkUpdating_keeps {f : FuncItem} (hs : s.Meets d) (updating : Bool) (span : Span) :
    (runLaw d a).Keeps r s (f.checkUpdating updating span) fun _ _ =>
      r.options.mixedUpdates = false → f.isUpdating = updating := by
  refine Law.Keeps.bind (Law.Keeps.read hs) fun _ t _ _ same => ?_
  obtain ⟨rfl, rfl⟩ := same
  split
  · dsimp only
    split
    · refine Law.Keeps.bind ?_ fun _ u _ _ (none : False) => none.elim
      exact Law.Keeps.throw hs
    · split
      · exact Law.Keeps.throw hs
      · refine Law.Keeps.pure hs fun _ => ?_
        cases h : f.isUpdating <;> cases updating <;> simp_all
  · exact Law.Keeps.pure hs (by simp_all)

end FuncItem

theorem DynamicSite.callable_keeps {site : DynamicSite} {callee : Value} (hs : s.Meets d)
    (hc : callee.Meets d) (arity : Nat) :
    (runLaw d a).Keeps r s (site.callable callee arity) fun f _ =>
      f.Meets d ∧ (r.options.mixedUpdates = false → f.isUpdating = site.updating) := by
  refine Law.Keeps.bind (Law.Keeps.ofExcept hs) fun f t ht _ found => ?_
  have hf := hc.asFunc found.1
  split
  · refine Law.Keeps.bind ?_ fun _ u _ _ (none : False) => none.elim
    exact Law.Keeps.throw ht
  · refine Law.Keeps.bind (FuncItem.checkUpdating_keeps ht _ _) fun _ u hu _ same => ?_
    exact Law.Keeps.pure hu ⟨hf, same⟩

theorem PartialSite.callable_keeps {site : PartialSite} {target : Value} (hs : s.Meets d)
    (ht : target.Meets d) (arity : Nat) :
    (runLaw d a).Keeps r s (site.callable target arity) fun f _ => f.Meets d := by
  refine Law.Keeps.bind (Law.Keeps.ofExcept hs) fun f t hs _ found => ?_
  split
  · exact Law.Keeps.throw hs
  · exact Law.Keeps.pure hs (ht.asFunc found.1)

section

variable {call : Caller} (unmixed : d.annotated → r.options.mixedUpdates = false)
  (calls : call.Keeps d a r)

include calls

theorem Caller.Keeps.made {next : PendingCall} (hs : s.Meets d) (h : next.Meets d a) :
    (runLaw d a).Keeps r s (call next) fun v _ => v.Meets d :=
  Run.keeps_mono a.still_le (calls next s hs h)

omit calls

mutual
theorem Expr.evaluate_keeps (unmixed : d.annotated → r.options.mixedUpdates = false)
    (calls : call.Keeps d a r) : (e : Expr) → (s : RunState) → s.Meets d → e.Meets d true a →
    (runLaw d a).Keeps r s (e.evaluate call) fun v _ => v.Meets d
  | .value v, s, hs, he => by
    rw [Expr.Meets] at he
    exact Law.Keeps.pure hs he
  | .var ref, s, hs, _ => Run.get_keeps hs ref.slot
  | .letIn _ slot value body, s, hs, he => by
    rw [Expr.Meets] at he
    obtain ⟨allowed, -, hvalue, hbody⟩ := he
    refine Law.Keeps.bind (Expr.evaluate_keeps unmixed calls value s hs hvalue) fun v t ht _ hv => ?_
    refine Law.Keeps.bind (Run.set_keeps ht allowed hv) fun _ u hu _ _ => ?_
    exact Expr.evaluate_keeps unmixed calls body u hu hbody
  | .branch cond yes no span, s, hs, he => by
    rw [Expr.Meets] at he
    obtain ⟨hcond, hyes, hno⟩ := he
    refine Law.Keeps.bind (Expr.evaluate_keeps unmixed calls cond s hs hcond) fun v t ht _ _ => ?_
    refine Law.Keeps.bind (Law.Keeps.ofExcept ht) fun b u hu _ _ => ?_
    split
    · exact Expr.evaluate_keeps unmixed calls yes u hu hyes
    · exact Expr.evaluate_keeps unmixed calls no u hu hno
  | .arith op lhs rhs span, s, hs, he => by
    rw [Expr.Meets] at he
    refine Law.Keeps.bind (Expr.evaluate_keeps unmixed calls lhs s hs he.1) fun l t ht _ _ => ?_
    refine Law.Keeps.bind (Expr.evaluate_keeps unmixed calls rhs t ht he.2) fun r u hu _ _ => ?_
    exact (Law.Keeps.ofExcept hu).mono fun v _ _ _ computed => ArithOp.meets_of_apply computed.1
  | .compare op lhs rhs span, s, hs, he => by
    rw [Expr.Meets] at he
    refine Law.Keeps.bind (Expr.evaluate_keeps unmixed calls lhs s hs he.1) fun l t ht _ _ => ?_
    refine Law.Keeps.bind (Expr.evaluate_keeps unmixed calls rhs t ht he.2) fun r u hu _ _ => ?_
    refine Law.Keeps.bind (Law.Keeps.ofExcept hu) fun b w hw _ _ => ?_
    exact Law.Keeps.pure hw (by simp only [Value.Meets])
  | .seq items, s, hs, he => by
    rw [Expr.Meets] at he
    refine Law.Keeps.bind (evaluateList_keeps unmixed calls items s hs he) fun vs t ht _ hvs => ?_
    exact Law.Keeps.pure ht (Value.meets_ofItems hvs)
  | .focus span, s, hs, _ => Run.focus_keeps hs span
  | .treat expr type span, s, hs, he => by
    rw [Expr.Meets] at he
    refine Law.Keeps.bind (Expr.evaluate_keeps unmixed calls expr s hs he) fun v t ht _ hv => ?_
    split
    · exact Law.Keeps.pure ht hv
    · exact Law.Keeps.throw ht
  | .builtin function args span, s, hs, he => by
    rw [Expr.Meets] at he
    obtain ⟨updates, draws, hargs⟩ := he
    refine Law.Keeps.bind (evaluateList_keeps unmixed calls args s hs hargs) fun vs t ht _ hvs => ?_
    exact Builtin.apply_keeps calls function ht hvs updates draws span
  | .error e, s, hs, _ => Law.Keeps.throw hs
  | .closure c, s, hs, he => by
    rw [Expr.Meets] at he
    refine Law.Keeps.bind (Closure.evaluate_keeps unmixed calls c s hs he) fun f t ht _ hf => ?_
    exact Law.Keeps.pure ht (Value.meets_func.2 hf)
  | .literal site c, s, hs, he => by
    rw [Expr.Meets, if_pos rfl] at he
    refine Law.Keeps.bind (Closure.evaluate_keeps unmixed calls c s hs he.2.2.2) fun f t ht _ hf => ?_
    exact Law.Keeps.pure ht (Value.meets_func.2 hf)
  | .partialApply site target args, s, hs, he => by
    rw [Expr.Meets] at he
    refine Law.Keeps.bind (Expr.evaluate_keeps unmixed calls target s hs he.1) fun v t ht _ hv => ?_
    refine Law.Keeps.bind (PartialSite.callable_keeps ht hv _) fun f u hu _ hf => ?_
    refine Law.Keeps.bind (evaluateList_keeps unmixed calls args u hu he.2) fun vs w hw _ hvs => ?_
    refine Law.Keeps.bind (Run.draw_keeps hw (PartialApplication.make_meets hf hvs)) fun g x hx _ hg => ?_
    exact Law.Keeps.pure hx (Value.meets_func.2 hg)
  | .call site args, s, hs, he => by
    rw [Expr.Meets] at he
    obtain ⟨mentioned, updates, draws, hargs⟩ := he
    refine Law.Keeps.bind (evaluateList_keeps unmixed calls args s hs hargs) fun vs t ht _ hvs => ?_
    exact calls.made ht ⟨mentioned, fun upd => (updates upd).1, fun drawn => (draws drawn).1, hvs⟩
  | .dynamicCall site callee args, s, hs, he => by
    rw [Expr.Meets] at he
    obtain ⟨updates, hcallee, hargs⟩ := he
    refine Law.Keeps.bind (Expr.evaluate_keeps unmixed calls callee s hs hcallee) fun v t ht _ hv => ?_
    refine Law.Keeps.bind (DynamicSite.callable_keeps ht hv _) fun f u hu _ hf => ?_
    refine Law.Keeps.bind (evaluateList_keeps unmixed calls args u hu hargs) fun vs w hw _ hvs => ?_
    exact calls.made hw ⟨hf.1, fun h upd => updates (hf.2 (unmixed h) ▸ upd), hvs⟩

theorem evaluateList_keeps (unmixed : d.annotated → r.options.mixedUpdates = false)
    (calls : call.Keeps d a r) : (es : List Expr) → (s : RunState) → s.Meets d →
    listMeets d true a es → (runLaw d a).Keeps r s (evaluateList call es) fun vs _ => ∀ v ∈ vs, v.Meets d
  | [], s, hs, _ => Law.Keeps.pure hs (by simp)
  | e :: es, s, hs, all => by
    rw [listMeets] at all
    refine Law.Keeps.bind (Expr.evaluate_keeps unmixed calls e s hs all.1) fun v t ht _ hv => ?_
    refine Law.Keeps.bind (evaluateList_keeps unmixed calls es t ht all.2) fun vs u hu _ hvs => ?_
    exact Law.Keeps.pure hu (by simpa using ⟨hv, hvs⟩)

theorem Closure.evaluate_keeps (unmixed : d.annotated → r.options.mixedUpdates = false)
    (calls : call.Keeps d a r) : (c : Closure) → (s : RunState) → s.Meets d →
    c.Meets d true a c.annotations.updating →
    (runLaw d a).Keeps r s (c.evaluate call) fun f _ => f.Meets d
  | ⟨name, params, body, declared, annotations, scope, captures, origin, compiled, span⟩, s, hs, hc => by
    have supplied : suppliesMeet d true a captures := by
      rw [Closure.Meets] at hc
      exact hc.2.1
    refine Law.Keeps.bind (evaluateSupplies_keeps unmixed calls scope captures s hs supplied)
      fun vs t ht _ hvs => ?_
    exact Run.draw_keeps ht (Closure.toItem_meets hc hvs)

theorem evaluateSupplies_keeps (unmixed : d.annotated → r.options.mixedUpdates = false)
    (calls : call.Keeps d a r) (scope : Scope) : (es : List (VarId × Expr)) → (s : RunState) →
    s.Meets d → suppliesMeet d true a es →
    (runLaw d a).Keeps r s (evaluateSupplies call scope es) fun vs _ => ∀ p ∈ vs, p.2.Meets d
  | [], s, hs, _ => Law.Keeps.pure hs (by simp)
  | (id, e) :: es, s, hs, all => by
    rw [suppliesMeet] at all
    refine Law.Keeps.bind (Expr.evaluate_keeps unmixed calls e s hs all.1) fun v t ht _ hv => ?_
    refine Law.Keeps.bind (evaluateSupplies_keeps unmixed calls scope es t ht all.2) fun vs u hu _ hvs => ?_
    refine Law.Keeps.pure hu ?_
    split
    · exact List.forall_mem_cons.2 ⟨hv, hvs⟩
    · exact hvs
end

end

end QueryFunctions
