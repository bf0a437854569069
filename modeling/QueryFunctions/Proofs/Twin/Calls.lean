import QueryFunctions.Proofs.Twin.State

/-! Calls of twins. The second run follows the first through every call, one for one, so it needs no more
of a budget, and may have more left. -/
namespace QueryFunctions

open Run (twins)

variable {o o' : Options}

theorem Variable.Twin.refl (v : Variable) : v.Twin v := ⟨rfl⟩

theorem variablesTwin_refl (vars : List Variable) : List.Forall₂ Variable.Twin vars vars :=
  List.forall₂_same.2 fun v _ => .refl v

theorem Scope.Twin.frameSize_eq {s t : Scope} (h : s.Twin t) : t.frameSize = s.frameSize :=
  congrArg List.length h.slots

namespace Run

theorem bindParams_twins (function : String) (span : Span) :
    ∀ {params params' : List Variable} {vs ws : List Value},
      List.Forall₂ Variable.Twin params params' → ValuesTwin vs ws →
      (twins o o').Follows (fun _ _ => True) (bindParams function span params vs)
        (bindParams function span params' ws) := by
  intro params params' vs ws alike
  induction alike generalizing vs ws with
  | nil => rintro (_ | _) <;> exact .pure trivial
  | @cons p q ps qs hp _ ih =>
    rintro (_ | @⟨v, w, vs, ws, h, h'⟩)
    · exact .pure trivial
    · have rest : (twins o o').Follows (fun _ _ => True)
          (do set p.slot v; bindParams function span ps vs)
          (do set p.slot w; bindParams function span qs ws) :=
        (set_twins p.slot h).bind fun _ _ _ => ih h'
      unfold bindParams
      rw [hp.declared_eq, hp.slot_eq, hp.name_eq]
      split
      · rw [h.looksLike.accepts_eq, h.looksLike.typeName_eq]
        exact .ite Iff.rfl ((Likeness.Follows.throw _).bind fun _ _ (_ : True) => rest) rest
      · exact rest

theorem bodyOf_twins (target : FuncId) (span : Span) :
    (twins o o').Follows Eq (bodyOf target span) (bodyOf target span) := by
  refine Likeness.Follows.read.bind fun r r' hr => ?_
  rw [hr.registry]
  cases r.registry.find? target with
  | none => exact .of_fault fun r t => ⟨_, _, rfl⟩
  | some entry =>
    dsimp only
    split
    · exact .pure rfl
    · exact .throw _
    · exact .throw _

end Run

theorem OperandsTwin.evaluate_twins {call call' : Caller} : {es es' : List Expr} → OperandsTwin es es' →
    (twins o o').Follows ValuesTwin (evaluateList call es) (evaluateList call' es') := by
  intro es
  induction es with
  | nil => rintro _ ⟨⟩; exact .pure .nil
  | cons e es ih =>
    intro es' alike
    cases alike with
    | param ref _ h =>
      exact (Run.get_twins ref.slot).bind fun _ _ hv => (ih h).bind fun _ _ hvs => .pure (.cons hv hvs)
    | supplied hv h =>
      exact (Likeness.Follows.pure hv).bind fun _ _ hv => (ih h).bind fun _ _ hvs => .pure (.cons hv hvs)

section

variable (looser : o.Looser o') {call call' : Caller} (calls : Caller.Twins o o' call call')

include looser calls

theorem Expr.done_twins (e : Expr) :
    (twins o o').Follows Flow.Twin (do return .done (← e.evaluate call))
      (do return .done (← e.evaluate call')) :=
  (Expr.evaluate_twins looser calls e).bind fun _ _ hv => .pure (.done hv)

theorem Expr.evaluateTail_twins : (e : Expr) →
    (twins o o').Follows Flow.Twin (e.evaluateTail call) (e.evaluateTail call')
  | .branch cond yes no span => (Expr.evaluate_twins looser calls cond).bind fun v w hv => by
    rw [hv.looksLike.ebv_eq]
    refine (Likeness.Follows.ofExcept (.refl (fun _ => rfl) _)).bind fun b _ same => ?_
    cases same
    exact .ite Iff.rfl (Expr.evaluateTail_twins yes) (Expr.evaluateTail_twins no)
  | .letIn _ slot bound body => (Expr.evaluate_twins looser calls bound).bind fun _ _ hv =>
    (Run.set_twins slot hv).bind fun _ _ _ => Expr.evaluateTail_twins body
  | .call site args => by
    refine .ite Iff.rfl ?_ (Expr.done_twins looser calls _)
    exact (evaluateList_twins looser calls args).bind fun _ _ hvs =>
      .pure (.call (.registered _ _ hvs))
  | .dynamicCall site callee args => by
    refine .ite Iff.rfl ?_ (Expr.done_twins looser calls _)
    exact (Expr.evaluate_twins looser calls callee).bind fun _ _ hv =>
      (site.callable_twins looser hv _).bind fun _ _ hf =>
        (evaluateList_twins looser calls args).bind fun _ _ hvs => .pure (.call (.item _ hf hvs))
  | .value _ | .var _ | .arith _ _ _ _ | .compare _ _ _ _ | .seq _ | .focus _ | .treat _ _ _
  | .builtin _ _ _ | .error _ | .closure _ | .literal _ _ | .partialApply _ _ _ =>
    Expr.done_twins looser calls _

theorem OperandsTwin.evaluateTail_twins {es es' : List Expr} (h : OperandsTwin es es')
    (site : DynamicSite) {f g : FuncItem} (hf : f.Twin g) :
    (twins o o').Follows Flow.Twin
      ((Expr.dynamicCall site (.value (.func f)) es).evaluateTail call)
      ((Expr.dynamicCall site (.value (.func g)) es').evaluateTail call') := by
  have callee : (twins o o').Follows FuncItem.Twin (site.callable (.func f) es.length)
      (site.callable (.func g) es'.length) := by
    rw [h.length_eq]
    exact site.callable_twins looser (.func hf) _
  have args : (twins o o').Follows ValuesTwin (evaluateList call es) (evaluateList call' es') :=
    h.evaluate_twins
  refine .ite Iff.rfl ?_ ?_
  · exact callee.bind fun _ _ hf => args.bind fun _ _ hvs => .pure (.call (.item _ hf hvs))
  · exact (callee.bind fun _ _ hf => args.bind fun _ _ hvs => calls (.item _ hf hvs)).bind
      fun _ _ hv => .pure (.done hv)

namespace Run

theorem stepItem_twins {f g : FuncItem} (h : f.Twin g) {vs ws : List Value} (hvs : ValuesTwin vs ws)
    (span : Span) :
    (twins o o').Follows Flow.Twin (stepItem call f vs span) (stepItem call' g ws span) := by
  unfold stepItem
  rw [h.looksLike.arity_eq, h.looksLike.text_eq, hvs.length_eq]
  simp only [Computation.throw_bind]
  refine .ite Iff.rfl (.throw _) ?_
  have code := h.code
  generalize f.code = c at code ⊢
  generalize g.code = d at code ⊢
  cases code with
  | builtin b => exact (Builtin.apply_twins calls b hvs span).bind fun _ _ hv => .pure (.done hv)
  | @closure params body scope captured captured' hcaptured =>
    have each : ∀ p q : Variable × Value, p.1 = q.1 ∧ p.2.Twin q.2 →
        (twins o o').Follows (fun _ _ => True) (set p.1.slot p.2) (set q.1.slot q.2) := by
      intro p q hpq
      rw [hpq.1]
      exact set_twins _ hpq.2
    refine inFrame_twins scope.frameSize ?_
    refine (Likeness.Follows.forM each hcaptured.forall₂).bind fun _ _ _ => ?_
    refine (bindParams_twins f.text span (variablesTwin_refl params) hvs).bind fun _ _ _ => ?_
    exact withoutFocus_twins (Expr.evaluateTail_twins looser calls body)
  | partialCall site scopes hf hes =>
    dsimp only
    rw [scopes.frameSize_eq]
    refine inFrame_twins _ ?_
    refine (bindParams_twins f.text span scopes.vars hvs).bind fun _ _ _ => ?_
    exact withoutFocus_twins (hes.evaluateTail_twins looser calls site hf)

theorem step_twins {next next' : PendingCall} (h : next.Twin next') :
    (twins o o').Follows Flow.Twin (step call next) (step call' next') := by
  cases h with
  | registered target span hvs =>
    refine (bodyOf_twins target span).bind fun p q same => ?_
    cases same
    refine inFrame_twins _ ((bindParams_twins _ span (variablesTwin_refl _) hvs).bind fun _ _ _ => ?_)
    exact withoutFocus_twins (Expr.evaluateTail_twins looser calls p.2)
  | item span h hvs | callback span h hvs => exact stepItem_twins looser calls h hvs span

end Run

end

namespace Run

variable (looser : o.Looser o')

include looser

theorem loop_twins {budget budget' : Nat} (more : budget ≤ budget') {next next' : PendingCall}
    (h : next.Twin next') :
    (twins o o').Follows Value.Twin (loop budget next) (loop budget' next') := by
  induction budget generalizing budget' next next' with
  | zero => exact .of_fault fun r s => ⟨_, _, rfl⟩
  | succ budget ih =>
    obtain ⟨budget', rfl⟩ := Nat.exists_eq_add_of_le' more
    have more : budget ≤ budget' + budget := Nat.le_add_left _ _
    have calls : Caller.Twins o o' (fun inner => nested (loop budget inner))
        (fun inner => nested (loop (budget' + budget) inner)) :=
      fun h => nested_twins looser (ih more h)
    refine checkInterrupt_twins.bind fun _ _ _ => ?_
    refine (step_twins looser calls h).bind fun flow flow' hflow => ?_
    cases hflow with
    | done hv => exact .pure hv
    | call hnext => exact ih more hnext

theorem call_twins {budget budget' : Nat} (more : budget ≤ budget') :
    Caller.Twins o o' (call budget) (call budget') :=
  fun h => nested_twins looser (loop_twins looser more h)

/-- Evaluation in twin states, with options that allow more and a budget that is not smaller. -/
theorem evaluate_twins {budget budget' : Nat} (more : budget ≤ budget') (e : Expr) :
    (twins o o').Follows Value.Twin (evaluate budget e) (evaluate budget' e) :=
  Expr.evaluate_twins looser (call_twins looser more) e

end Run

end QueryFunctions
