import QueryFunctions.Proofs.Alpha.State

/-! Evaluation of code under other identities of variables. A variable is read and written at its slot,
which no renaming changes, and an identity is looked up in the scope that goes with it; so the renamed code
is evaluated in lockstep through every call, and comes to an end within the same budget. -/
namespace QueryFunctions

open Run (renamings)

namespace PendingCall

/-- The same call, but for identities of variables in the values that it carries. -/
inductive Renames : PendingCall → PendingCall → Prop
  | registered (target : FuncId) {vs ws : List Value} (span : Span) : ValuesRename vs ws →
    Renames (.registered target vs span) (.registered target ws span)
  | item {f g : FuncItem} {vs ws : List Value} (span : Span) : f.Renames g → ValuesRename vs ws →
    Renames (.item f vs span) (.item g ws span)
  | callback {f g : FuncItem} {vs ws : List Value} (span : Span) : f.Renames g → ValuesRename vs ws →
    Renames (.callback f vs span) (.callback g ws span)

end PendingCall

inductive Flow.Renames : Flow → Flow → Prop
  | done {v w : Value} : v.Renames w → Flow.Renames (.done v) (.done w)
  | call {next next' : PendingCall} : next.Renames next' → Flow.Renames (.call next) (.call next')

def Caller.Renames (call call' : Caller) : Prop :=
  ∀ {next next' : PendingCall}, next.Renames next' →
    renamings.Follows Value.Renames (call next) (call' next')

theorem FuncItem.checkUpdating_renames {f g : FuncItem} (h : f.Renames g) (updating : Bool)
    (span : Span) :
    renamings.Follows (fun _ _ => True) (f.checkUpdating updating span)
      (g.checkUpdating updating span) := by
  refine Likeness.Follows.read.bind fun r r' same => ?_
  cases (same : r = r')
  rw [h.looksLike.isUpdating_eq, h.looksLike.text_eq]
  simp only [Computation.throw_bind]
  refine .ite Iff.rfl (.ite Iff.rfl (.throw _) ?_) (.pure trivial)
  exact .ite Iff.rfl (.throw _) (.pure trivial)

theorem DynamicSite.callable_renames (site : DynamicSite) {v w : Value} (h : v.Renames w)
    (arity : Nat) :
    renamings.Follows FuncItem.Renames (site.callable v arity) (site.callable w arity) := by
  refine (Likeness.Follows.ofExcept (h.asFunc site.span)).bind fun f g hf => ?_
  rw [hf.looksLike.arity_eq, hf.looksLike.text_eq]
  simp only [Computation.throw_bind]
  refine .ite Iff.rfl (.throw _) ?_
  exact (FuncItem.checkUpdating_renames hf _ _).bind fun _ _ _ => .pure hf

theorem PartialSite.callable_renames (site : PartialSite) {v w : Value} (h : v.Renames w)
    (arity : Nat) :
    renamings.Follows FuncItem.Renames (site.callable v arity) (site.callable w arity) := by
  refine (Likeness.Follows.ofExcept (h.asFunc site.span)).bind fun f g hf => ?_
  rw [hf.looksLike.arity_eq, hf.looksLike.text_eq]
  exact .ite Iff.rfl ((Likeness.Follows.throw _).bind fun _ _ (_ : True) => .pure hf) (.pure hf)

theorem Closure.toItem_renames {F G : Pairing} (name : Option String) (declared : Option SeqType)
    (annotations : Annotations) (origin : Origin) (compiled : Bool) (span : Span) {ps qs : List VarId}
    {body body' : Expr} {s t : Scope} {es es' : List (VarId × Expr)} {vs ws : List (Variable × Value)}
    (distinct : OneToOne G) (scope : s.Renames G t) (params : List.Forall₂ G ps qs)
    (hbody : body.Renames G body') (supplies : SuppliesRename F G es es')
    (captured : CapturedRename G vs ws) :
    DrawsAlike FuncItem.Renames
      (liftSupply (toItem ⟨name, ps, body, declared, annotations, s, es, origin, compiled, span⟩ vs))
      (liftSupply (toItem ⟨name, qs, body', declared, annotations, t, es', origin, compiled, span⟩ ws)) := by
  have type := (Closure.Renames.closure name declared annotations origin compiled span distinct scope
    params hbody supplies).funcType_eq
  rintro supply _ _ ⟨⟩
  refine ⟨_, rfl, ?_⟩
  rw [type]
  exact .item _ _ _ _ _ _ (.closure distinct scope (scope.filterMap_find? distinct params) captured hbody)

section

variable {call call' : Caller} (calls : Caller.Renames call call')

include calls

theorem Caller.Renames.kindred : Caller.Kindred renamings Value.Renames FuncItem.Renames call call' where
  invoke h hvs span := calls (.callback span h (valuesRename_iff.2 hvs))
  random := Run.random_renames
  addUpdate := Run.addUpdate_renames

theorem Builtin.apply_renames (b : Builtin) {vs ws : List Value} (h : ValuesRename vs ws)
    (span : Span) :
    renamings.Follows Value.Renames (b.apply call.invoke vs span) (b.apply call'.invoke ws span) :=
  Builtin.apply_follows Value.Renames.kinship calls.kindred b (valuesRename_iff.1 h) span

omit calls

mutual
theorem Expr.Renames.evaluate_follows (calls : Caller.Renames call call') :
    {F : Pairing} → {e e' : Expr} → e.Renames F e' →
    renamings.Follows Value.Renames (e.evaluate call) (e'.evaluate call')
  | _, _, _, .value h => .pure h
  | _, _, _, .var slot _ _ _ => Run.get_renames slot
  | _, _, _, .letIn slot _ h h' => (h.evaluate_follows calls).bind fun _ _ hv =>
    (Run.set_renames slot hv).bind fun _ _ _ => h'.evaluate_follows calls
  | _, _, _, .branch span h h' h'' => (h.evaluate_follows calls).bind fun v w hv => by
    rw [hv.looksLike.ebv_eq]
    refine (Likeness.Follows.ofExcept (.refl (fun _ => rfl) _)).bind fun b _ same => ?_
    cases same
    exact .ite Iff.rfl (h'.evaluate_follows calls) (h''.evaluate_follows calls)
  | _, _, _, .arith op span h h' => (h.evaluate_follows calls).bind fun l l' hl =>
    (h'.evaluate_follows calls).bind fun r r' hr => by
      rw [hl.looksLike.arith_eq hr.looksLike]
      exact .ofExcept (.refl .refl _)
  | _, _, _, .compare op span h h' => (h.evaluate_follows calls).bind fun l l' hl =>
    (h'.evaluate_follows calls).bind fun r r' hr => by
      rw [hl.looksLike.compare_eq hr.looksLike]
      refine (Likeness.Follows.ofExcept (.refl (fun _ => rfl) _)).bind fun b _ same => ?_
      cases same
      exact .pure (.bool b)
  | _, _, _, .seq h => (h.evaluate_follows calls).bind fun _ _ hvs => .pure (.ofItems hvs)
  | _, _, _, .focus span => Run.focus_renames span
  | _, _, _, .treat type span h => (h.evaluate_follows calls).bind fun v w hv => by
    rw [hv.looksLike.accepts_eq, hv.looksLike.typeName_eq]
    exact .ite Iff.rfl (.pure hv) (.throw _)
  | _, _, _, .builtin function span h => (h.evaluate_follows calls).bind fun _ _ hvs =>
    Builtin.apply_renames calls function hvs span
  | _, _, _, .error e => .throw e
  | _, _, _, .closure h => (h.evaluate_follows calls).bind fun _ _ hf => .pure (.func hf)
  | _, _, _, .literal _ h => (h.evaluate_follows calls).bind fun _ _ hf => .pure (.func hf)
  | _, _, _, .partialApply site h h' => (h.evaluate_follows calls).bind fun v w hv => by
    rw [h'.length_eq]
    refine (site.callable_renames hv _).bind fun f g hf => ?_
    refine (h'.evaluate_follows calls).bind fun vs ws hvs => ?_
    exact (Run.draw_renames (PartialApplication.make_renames hf hvs _ _)).bind fun _ _ hg =>
      .pure (.func hg)
  | _, _, _, .call _ h => (h.evaluate_follows calls).bind fun vs ws hvs => calls (.registered _ _ hvs)
  | _, _, _, .dynamicCall site h h' => (h.evaluate_follows calls).bind fun v w hv => by
    rw [h'.length_eq]
    refine (site.callable_renames hv _).bind fun f g hf => ?_
    exact (h'.evaluate_follows calls).bind fun vs ws hvs => calls (.item _ hf hvs)

theorem ListRename.evaluate_follows (calls : Caller.Renames call call') :
    {F : Pairing} → {es es' : List Expr} → ListRename F es es' →
    renamings.Follows ValuesRename (evaluateList call es) (evaluateList call' es')
  | _, _, _, .nil => .pure .nil
  | _, _, _, .cons h h' => (h.evaluate_follows calls).bind fun _ _ hv =>
    (h'.evaluate_follows calls).bind fun _ _ hvs => .pure (.cons hv hvs)

theorem Closure.Renames.evaluate_follows (calls : Caller.Renames call call') :
    {F : Pairing} → {c c' : Closure} → c.Renames F c' →
    renamings.Follows FuncItem.Renames (c.evaluate call) (c'.evaluate call')
  | _, _, _, .closure name declared annotations origin compiled span distinct scope params hbody h =>
    (h.evaluate_follows calls distinct scope).bind fun _ _ hvs => Run.draw_renames
      (Closure.toItem_renames name declared annotations origin compiled span distinct scope params hbody
        h hvs)

theorem SuppliesRename.evaluate_follows (calls : Caller.Renames call call') :
    {F G : Pairing} → {s t : Scope} →
    {es es' : List (VarId × Expr)} → SuppliesRename F G es es' → OneToOne G → s.Renames G t →
    renamings.Follows (CapturedRename G) (evaluateSupplies call s es) (evaluateSupplies call' t es')
  | _, _, _, _, _, _, .nil, _, _ => .pure .nil
  | _, _, s, t, _, _, @SuppliesRename.cons _ _ id id' _ _ _ _ paired h h', distinct, scope =>
    (h.evaluate_follows calls).bind fun v w hv => (h'.evaluate_follows calls distinct scope).bind
    fun vs ws hvs => by
      have found := scope.find? distinct paired
      generalize s.find? id = x at found ⊢
      generalize t.find? id' = y at found ⊢
      cases found with
      | none => exact .pure hvs
      | some hx => exact .pure (.cons hx hv hvs)
end

end

namespace Run

theorem bindParams_renames {F : Pairing} (function : String) (span : Span) :
    ∀ {params params' : List Variable} {vs ws : List Value},
      List.Forall₂ (Variable.Renames F) params params' → ValuesRename vs ws →
      renamings.Follows (fun _ _ => True) (bindParams function span params vs)
        (bindParams function span params' ws) := by
  intro params params' vs ws alike
  induction alike generalizing vs ws with
  | nil => rintro (_ | _) <;> exact .pure trivial
  | @cons p q ps qs hp _ ih =>
    rintro (_ | @⟨v, w, vs, ws, h, h'⟩)
    · exact .pure trivial
    · have rest : renamings.Follows (fun _ _ => True)
          (do set p.slot v; bindParams function span ps vs)
          (do set p.slot w; bindParams function span qs ws) :=
        (set_renames p.slot h).bind fun _ _ _ => ih h'
      unfold bindParams
      rw [hp.declared_eq, hp.slot_eq, hp.name_eq]
      split
      · rw [h.looksLike.accepts_eq, h.looksLike.typeName_eq]
        exact .ite Iff.rfl ((Likeness.Follows.throw _).bind fun _ _ (_ : True) => rest) rest
      · exact rest

theorem bodyOf_renames (target : FuncId) (span : Span) :
    renamings.Follows Eq (bodyOf target span) (bodyOf target span) := by
  refine Likeness.Follows.read.bind fun r r' same => ?_
  cases (same : r = r')
  cases r.registry.find? target with
  | none => exact .of_fault fun r t => ⟨_, _, rfl⟩
  | some entry =>
    dsimp only
    split
    · exact .pure rfl
    · exact .throw _
    · exact .throw _

end Run

section

variable {call call' : Caller} (calls : Caller.Renames call call')

include calls

theorem Expr.Renames.done_follows {F : Pairing} {e e' : Expr} (h : e.Renames F e') :
    renamings.Follows Flow.Renames (do return .done (← e.evaluate call))
      (do return .done (← e'.evaluate call')) :=
  (h.evaluate_follows calls).bind fun _ _ hv => .pure (.done hv)

theorem Expr.Renames.evaluateTail_follows {F : Pairing} : {e e' : Expr} → e.Renames F e' →
    renamings.Follows Flow.Renames (e.evaluateTail call) (e'.evaluateTail call')
  | _, _, .branch span h h' h'' => (h.evaluate_follows calls).bind fun v w hv => by
    rw [hv.looksLike.ebv_eq]
    refine (Likeness.Follows.ofExcept (.refl (fun _ => rfl) _)).bind fun b _ same => ?_
    cases same
    exact .ite Iff.rfl h'.evaluateTail_follows h''.evaluateTail_follows
  | _, _, .letIn slot _ h h' => (h.evaluate_follows calls).bind fun _ _ hv =>
    (Run.set_renames slot hv).bind fun _ _ _ => h'.evaluateTail_follows
  | _, _, .call site h => by
    refine .ite Iff.rfl ?_ ((Expr.Renames.call (F := F) site h).done_follows calls)
    exact (h.evaluate_follows calls).bind fun _ _ hvs => .pure (.call (.registered _ _ hvs))
  | _, _, .dynamicCall site hf h => by
    refine .ite Iff.rfl ?_ ((Expr.Renames.dynamicCall (F := F) site hf h).done_follows calls)
    rw [h.length_eq]
    exact (hf.evaluate_follows calls).bind fun _ _ hv => (site.callable_renames hv _).bind
      fun _ _ hg => (h.evaluate_follows calls).bind fun _ _ hvs => .pure (.call (.item _ hg hvs))
  | _, _, h@(.value _) | _, _, h@(.var _ _ _ _) | _, _, h@(.arith _ _ _ _)
  | _, _, h@(.compare _ _ _ _) | _, _, h@(.seq _) | _, _, h@(.focus _) | _, _, h@(.treat _ _ _)
  | _, _, h@(.builtin _ _ _) | _, _, h@(.error _) | _, _, h@(.closure _) | _, _, h@(.literal _ _)
  | _, _, h@(.partialApply _ _ _) => h.done_follows calls

namespace Run

theorem stepItem_renames {f g : FuncItem} (h : f.Renames g) {vs ws : List Value}
    (hvs : ValuesRename vs ws) (span : Span) :
    renamings.Follows Flow.Renames (stepItem call f vs span) (stepItem call' g ws span) := by
  unfold stepItem
  rw [h.looksLike.arity_eq, h.looksLike.text_eq, hvs.length_eq]
  simp only [Computation.throw_bind]
  refine .ite Iff.rfl (.throw _) ?_
  have code := h.code
  generalize f.code = c at code ⊢
  generalize g.code = d at code ⊢
  cases code with
  | builtin b => exact (Builtin.apply_renames calls b hvs span).bind fun _ _ hv => .pure (.done hv)
  | @closure F _ _ _ _ _ _ _ _ distinct scope params captured body =>
    have each : ∀ p q : Variable × Value, p.1.Renames F q.1 ∧ p.2.Renames q.2 →
        renamings.Follows (fun _ _ => True) (set p.1.slot p.2) (set q.1.slot q.2) := by
      intro p q hpq
      rw [hpq.1.slot_eq]
      exact set_renames _ hpq.2
    dsimp only
    rw [scope.frameSize_eq]
    refine inFrame_renames _ ?_
    refine (Likeness.Follows.forM each captured.forall₂).bind fun _ _ _ => ?_
    refine (bindParams_renames f.text span params hvs).bind fun _ _ _ => ?_
    exact withoutFocus_renames (body.evaluateTail_follows calls)

theorem step_renames {next next' : PendingCall} (h : next.Renames next') :
    renamings.Follows Flow.Renames (step call next) (step call' next') := by
  cases h with
  | registered target span hvs =>
    refine (bodyOf_renames target span).bind fun p q same => ?_
    cases same
    refine inFrame_renames _ ((bindParams_renames _ span (Variable.Renames.refl_all _) hvs).bind
      fun _ _ _ => ?_)
    exact withoutFocus_renames ((Expr.Renames.refl p.2).evaluateTail_follows calls)
  | item span h hvs | callback span h hvs => exact stepItem_renames calls h hvs span

end Run

end

namespace Run

theorem loop_renames (budget : Nat) {next next' : PendingCall} (h : next.Renames next') :
    renamings.Follows Value.Renames (loop budget next) (loop budget next') := by
  induction budget generalizing next next' with
  | zero => exact .of_fault fun r s => ⟨_, _, rfl⟩
  | succ budget ih =>
    have calls : Caller.Renames (fun inner => nested (loop budget inner))
        (fun inner => nested (loop budget inner)) :=
      fun h => nested_renames (ih h)
    refine checkInterrupt_renames.bind fun _ _ _ => ?_
    refine (step_renames calls h).bind fun flow flow' hflow => ?_
    cases hflow with
    | done hv => exact .pure hv
    | call hnext => exact ih hnext

theorem call_renames (budget : Nat) : Caller.Renames (call budget) (call budget) :=
  fun h => nested_renames (loop_renames budget h)

end Run

theorem Expr.Renames.run_follows {F : Pairing} {e e' : Expr} (h : e.Renames F e') (budget : Nat) :
    renamings.Follows Value.Renames (Run.evaluate budget e) (Run.evaluate budget e') :=
  h.evaluate_follows (Run.call_renames budget)

end QueryFunctions
