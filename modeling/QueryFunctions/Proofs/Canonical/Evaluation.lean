import QueryFunctions.Proofs.Canonical.Basic
import QueryFunctions.Proofs.Law.Agreement
import QueryFunctions.Run.Evaluation

/-! Evaluation of code with canonical constants in a state whose values are canonical. Sequences are put
together from canonical values, function items hold what was evaluated before, and so are arguments and
updates. Two ways to make calls that agree where all of this is canonical give the same evaluation. -/
namespace QueryFunctions

structure RunState.Canonical (s : RunState) : Prop where
  stack : ∀ v ∈ s.stack, v.Canonical
  focus : ∀ v, s.focus = some v → v.Canonical
  updates : ∀ v ∈ s.updates, v.Canonical

/-- The function item that is called, if there is one, and the arguments are canonical. -/
def PendingCall.Canonical : PendingCall → Prop
  | .registered _ args _ => ∀ v ∈ args, v.Canonical
  | .item f args _ | .callback f args _ => f.Canonical ∧ ∀ v ∈ args, v.Canonical

def canonicalLaw : Law RunState where
  holds := RunState.Canonical
  leads _ _ := True
  refl _ := trivial
  trans _ _ := trivial

/-- Both computations do the same in `s`, their values satisfy `post`, and the state stays canonical. -/
abbrev Run.Refines {α : Type} (r : RunSetting) (s : RunState) (act act' : Run α) (post : α → Prop) :
    Prop :=
  canonicalLaw.Agrees r s act act' fun a _ => post a

/-- Both make canonical calls in the same way in a canonical state. -/
def Caller.Refines (r : RunSetting) (call call' : Caller) : Prop :=
  ∀ (next : PendingCall) (s : RunState), s.Canonical → next.Canonical →
    Run.Refines r s (call next) (call' next) Value.Canonical

variable {r : RunSetting} {s : RunState} {α : Type}

namespace Run

theorem refines_of_eq {act : Run α} {a : α} {t : RunState} {q : α → Prop}
    (run : act r s = (.ok (.ok a), t)) (ht : t.Canonical) (ha : q a) : Refines r s act act q :=
  .refl (.of_eq run ht trivial ha)

theorem refuse_refines {β : Type} {err : QueryError} {next : α → Run β} {post : β → Prop}
    (hs : s.Canonical) : Refines r s (throw err >>= next) (throw err >>= next) post := by
  rw [Computation.throw_bind]
  exact .throw hs

theorem get_refines (hs : s.Canonical) (slot : Nat) :
    Refines r s (Run.get slot) (Run.get slot) Value.Canonical := by
  refine .refl (Law.Keeps.bind (Law.Keeps.get hs) fun _ t _ _ same => ?_)
  obtain ⟨rfl, rfl⟩ := same
  cases found : t.stack[t.base + slot]? with
  | none => exact .of_fault rfl
  | some v => exact .pure hs (hs.stack v (Array.mem_of_getElem? found))

theorem set_refines (hs : s.Canonical) (slot : Nat) {v : Value} (hv : v.Canonical) :
    Refines r s (Run.set slot v) (Run.set slot v) fun _ => True := by
  refine .refl (Law.Keeps.bind (Law.Keeps.get hs) fun _ t _ _ same => ?_)
  obtain ⟨rfl, rfl⟩ := same
  split
  · have ht : ({ t with stack := t.stack.setIfInBounds (t.base + slot) v } : RunState).Canonical := by
      refine ⟨fun w hw => ?_, hs.focus, hs.updates⟩
      rcases Array.mem_or_eq_of_mem_setIfInBounds hw with old | rfl
      · exact hs.stack w old
      · exact hv
    exact .of_eq rfl ht trivial trivial
  · exact .of_fault rfl

theorem focus_refines (hs : s.Canonical) (span : Span) :
    Refines r s (Run.focus span) (Run.focus span) Value.Canonical := by
  refine .refl (Law.Keeps.bind (Law.Keeps.get hs) fun _ t _ _ same => ?_)
  obtain ⟨rfl, rfl⟩ := same
  cases found : t.focus with
  | none => exact .throw hs
  | some v => exact .pure hs (hs.focus v found)

theorem draw_refines (hs : s.Canonical) {act : Supplied α} {post : α → Prop}
    (drawn : ∀ a t, act s.supply = .ok (a, t) → post a) : Refines r s (Run.draw act) (Run.draw act) post := by
  cases run : act s.supply with
  | error f => exact .refl (.of_fault (f := f) (t := s) (by simp only [Run.draw, run]))
  | ok p =>
    have kept : ({ s with supply := p.2 } : RunState).Canonical := ⟨hs.stack, hs.focus, hs.updates⟩
    exact refines_of_eq (by simp only [Run.draw, run]) kept (drawn _ _ run)

theorem addUpdate_refines (hs : s.Canonical) {v : Value} (hv : v.Canonical) :
    Refines r s (Run.addUpdate v) (Run.addUpdate v) fun _ => True := by
  have ht : ({ s with updates := s.updates ++ [v] } : RunState).Canonical := by
    refine ⟨hs.stack, hs.focus, fun w mem => ?_⟩
    rcases List.mem_append.1 mem with old | new
    · exact hs.updates w old
    · exact List.mem_singleton.1 new ▸ hv
  exact refines_of_eq rfl ht trivial

end Run

namespace Builtin

variable {call call' : Caller} (calls : Caller.Refines r call call')

include calls

theorem invoke_refines {f : FuncItem} (hs : s.Canonical) (hf : f.Canonical) {args : List Value}
    (all : ∀ v ∈ args, v.Canonical) (span : Span) :
    Run.Refines r s (call.invoke f args span) (call'.invoke f args span) Value.Canonical :=
  calls (.callback f args span) s hs ⟨hf, all⟩

theorem test_refines {f : FuncItem} (hf : f.Canonical) (span : Span) {v : Value} (hs : s.Canonical)
    (hv : v.Canonical) :
    Run.Refines r s (test call.invoke f span v) (test call'.invoke f span v) fun _ => True := by
  refine (invoke_refines calls hs hf (List.forall_mem_singleton.2 hv) span).bind fun w t ht _ => ?_
  split
  · exact .pure ht trivial
  · exact .throw ht

theorem apply_refines (b : Builtin) (hs : s.Canonical) {args : List Value} (all : ∀ v ∈ args, v.Canonical)
    (span : Span) :
    Run.Refines r s (b.apply call.invoke args span) (b.apply call'.invoke args span) Value.Canonical := by
  unfold apply
  split
  · rename_i seq f
    refine (Law.Agrees.ofExcept hs).bind fun g t ht found => ?_
    have hg := (all f (by simp)).asFunc found
    refine (Law.Agrees.mapM (p := Value.Canonical) (q := Value.Canonical) (fun v u hu hv => ?_) seq.items
      ht fun v => (all seq (by simp)).items).bind fun vs u hu hvs => .pure hu (Value.canonical_ofItems hvs)
    exact invoke_refines calls hu hg (List.forall_mem_singleton.2 hv) span
  · rename_i seq f
    refine (Law.Agrees.ofExcept hs).bind fun g t ht found => ?_
    have hg := (all f (by simp)).asFunc found
    refine (Law.Agrees.filterM (p := Value.Canonical) (fun v u hu hv => test_refines calls hg span hu hv)
      seq.items ht fun v => (all seq (by simp)).items).bind fun vs u hu hvs => ?_
    exact .pure hu (Value.canonical_ofItems hvs)
  · rename_i seq zero f
    refine (Law.Agrees.ofExcept hs).bind fun g t ht found => ?_
    have hg := (all f (by simp)).asFunc found
    refine Law.Agrees.foldlM (p := Value.Canonical) (q := Value.Canonical) (fun acc v u hu hacc hv => ?_)
      seq.items ht (all zero (by simp)) fun v => (all seq (by simp)).items
    exact invoke_refines calls hu hg (by simpa using ⟨hacc, hv⟩) span
  · exact (Law.Agrees.ofExcept hs).bind fun _ t ht _ => .pure ht Value.canonical_int
  · exact (Law.Agrees.ofExcept hs).bind fun g t ht _ => .pure ht (Value.canonical_ofName g)
  · exact .pure hs Value.canonical_int
  · refine (Law.Agrees.ofExcept hs).bind fun bound t ht _ => ?_
    have drawn : ({ t with random := nextRandom t.random } : RunState).Canonical :=
      ⟨ht.stack, ht.focus, ht.updates⟩
    exact (Run.refines_of_eq (q := fun _ => True) rfl drawn trivial).bind
      fun i u hu _ => .pure hu Value.canonical_int
  · exact .throw hs
  · exact (Run.addUpdate_refines hs (all _ (by simp))).bind fun _ t ht _ => .pure ht Value.canonical_empty
  · exact .throw hs

end Builtin

theorem DynamicSite.callable_refines {site : DynamicSite} {callee : Value} (hs : s.Canonical)
    (hc : callee.Canonical) (arity : Nat) :
    Run.Refines r s (site.callable callee arity) (site.callable callee arity) FuncItem.Canonical := by
  refine (Law.Agrees.ofExcept hs).bind fun f t ht found => ?_
  have hf := hc.asFunc found
  have checked : Run.Refines r t (f.checkUpdating site.updating site.span)
      (f.checkUpdating site.updating site.span) fun _ => True := by
    refine (Law.Agrees.refl (.read ht)).bind fun _ u hu _ => ?_
    split
    · dsimp only
      split
      · exact Run.refuse_refines hu
      · split
        · exact .throw hu
        · exact .pure hu trivial
    · exact .pure hu trivial
  dsimp only
  split
  · exact Run.refuse_refines ht
  · exact checked.bind fun _ u hu _ => .pure hu hf

theorem PartialSite.callable_refines {site : PartialSite} {target : Value} (hs : s.Canonical)
    (ht : target.Canonical) (arity : Nat) :
    Run.Refines r s (site.callable target arity) (site.callable target arity) FuncItem.Canonical := by
  refine (Law.Agrees.ofExcept hs).bind fun f t hs found => ?_
  split
  · exact .throw hs
  · exact .pure hs (ht.asFunc found)

section

variable {call call' : Caller} (calls : Caller.Refines r call call')

mutual
theorem Expr.evaluate_refines (calls : Caller.Refines r call call') :
    (e : Expr) → (s : RunState) → s.Canonical → e.Canonical →
    Run.Refines r s (e.evaluate call) (e.evaluate call') Value.Canonical
  | .value v, s, hs, he => .pure hs (Expr.canonical_value.1 he)
  | .var ref, s, hs, _ => Run.get_refines hs ref.slot
  | .letIn _ slot bound body, s, hs, he => by
    refine (bound.evaluate_refines calls s hs (he.part (by simp [Expr.parts]))).bind fun v t ht hv => ?_
    refine (Run.set_refines ht slot hv).bind fun _ u hu _ => ?_
    exact body.evaluate_refines calls u hu (he.part (by simp [Expr.parts]))
  | .branch cond yes no span, s, hs, he => by
    refine (cond.evaluate_refines calls s hs (he.part (by simp [Expr.parts]))).bind fun v t ht _ => ?_
    refine (Law.Agrees.ofExcept ht).bind fun b u hu _ => ?_
    split
    · exact yes.evaluate_refines calls u hu (he.part (by simp [Expr.parts]))
    · exact no.evaluate_refines calls u hu (he.part (by simp [Expr.parts]))
  | .arith op lhs rhs span, s, hs, he => by
    refine (lhs.evaluate_refines calls s hs (he.part (by simp [Expr.parts]))).bind fun l t ht _ => ?_
    refine (rhs.evaluate_refines calls t ht (he.part (by simp [Expr.parts]))).bind fun r u hu _ => ?_
    exact .refl ((Law.Keeps.ofExcept hu).mono fun v _ _ _ computed => ArithOp.canonical_of_apply computed.1)
  | .compare op lhs rhs span, s, hs, he => by
    refine (lhs.evaluate_refines calls s hs (he.part (by simp [Expr.parts]))).bind fun l t ht _ => ?_
    refine (rhs.evaluate_refines calls t ht (he.part (by simp [Expr.parts]))).bind fun r u hu _ => ?_
    exact (Law.Agrees.ofExcept hu).bind fun b w hw _ => .pure hw Value.canonical_bool
  | .seq items, s, hs, he => by
    refine (evaluateList_refines calls items s hs fun e mem => he.part mem).bind fun vs t ht hvs => ?_
    exact .pure ht (Value.canonical_ofItems hvs)
  | .focus span, s, hs, _ => Run.focus_refines hs span
  | .treat expr type span, s, hs, he => by
    refine (expr.evaluate_refines calls s hs (he.part (by simp [Expr.parts]))).bind fun v t ht hv => ?_
    split
    · exact .pure ht hv
    · exact .throw ht
  | .builtin function args span, s, hs, he =>
    (evaluateList_refines calls args s hs fun e mem => he.part mem).bind fun _ _ ht hvs =>
      function.apply_refines calls ht hvs span
  | .error e, s, hs, _ => .throw hs
  | .closure c, s, hs, he | .literal _ c, s, hs, he =>
    (c.evaluate_refines calls s hs fun e mem => he.part mem).bind fun _ _ ht hf =>
      .pure ht (Value.canonical_func.2 hf)
  | .partialApply site target args, s, hs, he => by
    refine (target.evaluate_refines calls s hs (he.part (by simp [Expr.parts]))).bind fun v t ht hv => ?_
    refine (PartialSite.callable_refines ht hv _).bind fun f u hu hf => ?_
    refine (evaluateList_refines calls args u hu fun e mem => he.part (by simp [Expr.parts, mem])).bind
      fun vs w hw hvs => ?_
    have made := PartialApplication.canonical_make hf hvs site.holes site.span
    exact (Run.draw_refines hw fun g x drawn => (made _ g x drawn).2).bind fun g x hx hg =>
      .pure hx (Value.canonical_func.2 hg)
  | .call site args, s, hs, he =>
    (evaluateList_refines calls args s hs fun e mem => he.part mem).bind fun _ t ht hvs => calls _ t ht hvs
  | .dynamicCall site callee args, s, hs, he => by
    refine (callee.evaluate_refines calls s hs (he.part (by simp [Expr.parts]))).bind fun v t ht hv => ?_
    refine (DynamicSite.callable_refines ht hv _).bind fun f u hu hf => ?_
    refine (evaluateList_refines calls args u hu fun e mem => he.part (by simp [Expr.parts, mem])).bind
      fun vs w hw hvs => ?_
    exact calls _ w hw ⟨hf, hvs⟩

theorem evaluateList_refines (calls : Caller.Refines r call call') :
    (es : List Expr) → (s : RunState) → s.Canonical →
    (∀ e ∈ es, e.Canonical) →
    Run.Refines r s (evaluateList call es) (evaluateList call' es) fun vs => ∀ v ∈ vs, v.Canonical
  | [], s, hs, _ => .pure hs nofun
  | e :: es, s, hs, all => by
    refine (e.evaluate_refines calls s hs (all e (by simp))).bind fun v t ht hv => ?_
    refine (evaluateList_refines calls es t ht fun x mem => all x (by simp [mem])).bind fun vs u hu hvs => ?_
    exact .pure hu (List.forall_mem_cons.2 ⟨hv, hvs⟩)

theorem Closure.evaluate_refines (calls : Caller.Refines r call call') :
    (c : Closure) → (s : RunState) → s.Canonical →
    (∀ p ∈ (Expr.closure c).parts, p.Canonical) →
    Run.Refines r s (c.evaluate call) (c.evaluate call') FuncItem.Canonical
  | ⟨_, _, body, _, _, scope, captures, _, _, _⟩, s, hs, hc => by
    refine (evaluateSupplies_refines calls scope captures s hs fun q mem => ?_).bind fun vs t ht hvs => ?_
    · exact hc q.2 (List.mem_append_left _ (List.mem_map_of_mem mem))
    · refine Run.draw_refines ht ?_
      rintro f u ⟨⟩
      exact Closure.canonical_toItem (hc body (by simp [Expr.parts])) hvs t.supply

theorem evaluateSupplies_refines (calls : Caller.Refines r call call') (scope : Scope) :
    (es : List (VarId × Expr)) → (s : RunState) →
    s.Canonical → (∀ q ∈ es, q.2.Canonical) →
    Run.Refines r s (evaluateSupplies call scope es) (evaluateSupplies call' scope es)
      fun vs => ∀ q ∈ vs, q.2.Canonical
  | [], s, hs, _ => .pure hs nofun
  | (id, e) :: es, s, hs, all => by
    refine (e.evaluate_refines calls s hs (all (id, e) (by simp))).bind fun v t ht hv => ?_
    refine (evaluateSupplies_refines calls scope es t ht fun x mem => all x (by simp [mem])).bind
      fun vs u hu hvs => .pure hu ?_
    split
    · exact List.forall_mem_cons.2 ⟨hv, hvs⟩
    · exact hvs
end

end

end QueryFunctions
