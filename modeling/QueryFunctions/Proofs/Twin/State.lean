import QueryFunctions.Proofs.Leniency.Options
import QueryFunctions.Proofs.Run.Brackets
import QueryFunctions.Proofs.Twin.Basic
import QueryFunctions.Proofs.Run.Kinship

/-! Runs of the same code from states that are alike but for what their supplies have left. Identities are
drawn and handed on, but never looked at, so the second evaluation follows the first. The options of the
second run may allow more than those of the first. -/
namespace QueryFunctions

structure RunState.Twin (s s' : RunState) : Prop where
  size : s'.stack.size = s.stack.size
  cells : ∀ i : Nat, Option.Rel Value.Twin s.stack[i]? s'.stack[i]?
  base : s'.base = s.base
  depth : s'.depth = s.depth
  focus : Option.Rel Value.Twin s.focus s'.focus
  updates : ValuesTwin s.updates s'.updates
  random : s'.random = s.random
  host : s'.host = s.host

structure RunSetting.Twin (o o' : Options) (r r' : RunSetting) : Prop where
  left : r.options = o
  right : r'.options = o'
  registry : r'.registry = r.registry

/-- How a run with options `o'` is like one with options `o`. -/
def Run.twins (o o' : Options) : Likeness RunSetting RunState where
  settings := RunSetting.Twin o o'
  states := RunState.Twin
  excused := o.Lifts o'

theorem Value.Twin.option : (v : Option Value) → Option.Rel Value.Twin v v
  | none => .none
  | some v => .some (.refl v)

namespace RunState.Twin

variable {s s' : RunState}

theorem pushed (h : s.Twin s') (size : Nat) : (s.pushed size).Twin (s'.pushed size) where
  size := by simp only [RunState.pushed, Array.size_append, h.size]
  cells i := by
    simp only [RunState.pushed, Array.getElem?_append, h.size]
    split
    · exact h.cells i
    · exact Value.Twin.option _
  base := h.size
  depth := h.depth
  focus := h.focus
  updates := h.updates
  random := h.random
  host := h.host

theorem popped (h : s.Twin s') (base : Nat) : (s.popped base).Twin (s'.popped base) where
  size := by simp only [RunState.popped, Array.size_shrink, h.size, h.base]
  cells i := by
    simp only [RunState.popped, Array.shrink_eq_take, Array.take_eq_extract,
      Array.getElem?_extract, h.base, h.size, Nat.zero_add]
    split
    · exact h.cells i
    · exact .none
  base := rfl
  depth := h.depth
  focus := h.focus
  updates := h.updates
  random := h.random
  host := h.host

theorem deeper (h : s.Twin s') : s.deeper.Twin s'.deeper :=
  { h with depth := congrArg (· + 1) h.depth }

theorem shallower (h : s.Twin s') : s.shallower.Twin s'.shallower :=
  { h with depth := congrArg (· - 1) h.depth }

theorem focused (h : s.Twin s') {v w : Option Value} (hv : Option.Rel Value.Twin v w) :
    (s.focused v).Twin (s'.focused w) :=
  { h with focus := hv }

theorem later (h : s.Twin s') : s.later.Twin s'.later :=
  { h with host := by simp only [RunState.later, h.host] }

theorem start (supply supply' : Supply) {o o' : Options} (h : o.Looser o') (host : Host)
    (focus : Option Value) :
    (RunState.start supply o host focus).Twin (.start supply' o' host focus) where
  size := rfl
  cells _ := Value.Twin.option _
  base := rfl
  depth := rfl
  focus := Value.Twin.option _
  updates := .nil
  random := by simp only [RunState.start, h.seed]
  host := rfl

end RunState.Twin

namespace Run

variable {o o' : Options} {α β : Type} {rel : α → β → Prop}

theorem draw_twins {act : Supplied α} {act' : Supplied β} (h : DrawsFreely rel act act') :
    (twins o o').Follows rel (draw act) (draw act') := by
  intro r r' s s' _ hs result t run _
  unfold draw at run
  split at run
  · rename_i a supply drawn
    cases run
    obtain ⟨b, supply', drawn', hab⟩ := h _ s'.supply _ _ drawn
    refine ⟨.ok b, { s' with supply := supply' }, ?_, .ok hab, { hs with }⟩
    simp only [draw, drawn']
  · cases run

theorem get_twins (slot : Nat) : (twins o o').Follows Value.Twin (Run.get slot) (Run.get slot) := by
  refine Likeness.Follows.get.bind fun s s' hs => ?_
  have cell := hs.cells (s.base + slot)
  rw [hs.base]
  generalize s.stack[s.base + slot]? = v at cell ⊢
  generalize s'.stack[s.base + slot]? = w at cell ⊢
  cases cell with
  | some h => exact .pure h
  | none => exact .of_fault fun r t => ⟨_, _, rfl⟩

theorem set_twins (slot : Nat) {v w : Value} (h : v.Twin w) :
    (twins o o').Follows (fun _ _ => True) (Run.set slot v) (Run.set slot w) := by
  refine Likeness.Follows.get.bind fun s s' hs => ?_
  rw [hs.base, hs.size]
  refine .ite Iff.rfl (.modify fun t t' ht => ?_) (.of_fault fun r t => ⟨_, _, rfl⟩)
  refine { ht with size := ?_, cells := fun i => ?_ }
  · simp only [Array.size_setIfInBounds, ht.size]
  · simp only [Array.getElem?_setIfInBounds, ht.size, ht.base]
    split
    · split
      · exact .some h
      · exact .none
    · exact ht.cells i

theorem focus_twins (span : Span) :
    (twins o o').Follows Value.Twin (Run.focus span) (Run.focus span) := by
  refine Likeness.Follows.get.bind fun s s' hs => ?_
  have focus := hs.focus
  generalize s.focus = v at focus ⊢
  generalize s'.focus = w at focus ⊢
  cases focus with
  | some h => exact .pure h
  | none => exact .throw _

theorem checkInterrupt_twins :
    (twins o o').Follows (fun _ _ => True) checkInterrupt checkInterrupt := by
  have now : (twins o o').Follows (· = ·) nextMoment nextMoment :=
    .modifyGet fun s s' hs => ⟨congrArg Host.present hs.host.symm, hs.later⟩
  refine now.bind fun moment _ same => ?_
  cases same
  exact .ite Iff.rfl (.throw _) (.pure trivial)

theorem addUpdate_twins {v w : Value} (h : v.Twin w) :
    (twins o o').Follows (fun _ _ => True) (addUpdate v) (addUpdate w) := by
  refine .modify fun s s' hs => ?_
  exact { hs with updates := hs.updates.append (.cons h .nil) }

theorem takeUpdates_twins : (twins o o').Follows ValuesTwin takeUpdates takeUpdates := by
  rintro r r' s s' - hs _ _ ⟨⟩ -
  exact ⟨_, _, rfl, .ok hs.updates, { hs with updates := .nil }⟩

theorem random_twins (bound : Int64) :
    (twins o o').Follows (· = ·) (Run.random bound) (Run.random bound) := by
  rintro r r' s s' - hs _ _ ⟨⟩ -
  refine ⟨_, _, rfl, .ok ?_, { hs with random := ?_ }⟩
  · simp only [hs.random]
  · simp only [hs.random]

theorem inFrame_twins (size : Nat) {act : Run α} {act' : Run β}
    (h : (twins o o').Follows rel act act') :
    (twins o o').Follows rel (inFrame size act) (inFrame size act') := by
  refine leaving_follows (inFrame_run size act) (inFrame_run size act') rfl rfl
    (fun hs => hs.pushed size) (fun {s s' _ _} hs ht => ?_) h
  rw [hs.base]
  exact ht.popped s.base

theorem withoutFocus_twins {act : Run α} {act' : Run β} (h : (twins o o').Follows rel act act') :
    (twins o o').Follows rel (withoutFocus act) (withoutFocus act') :=
  leaving_follows (withoutFocus_run act) (withoutFocus_run act') rfl rfl
    (fun hs => hs.focused .none) (fun hs ht => ht.focused hs.focus) h

/-- A limit that stops the second run stops the first, and where the limits differ that is excused. -/
theorem checkOverflow_twins (looser : o.Looser o') :
    (twins o o').Follows (fun _ _ => True) checkOverflow checkOverflow := by
  refine Likeness.Follows.get.bind fun s s' hs => Likeness.Follows.read.bind fun r r' hr => ?_
  rw [hr.left, hr.right]
  cases full : s.overflow? o with
  | some e =>
    by_cases differ : o.maxDepth ≠ o'.maxDepth
    · exact .excuse (Or.inr ⟨differ, RunState.exists_of_overflow? full⟩)
    · have same : s'.overflow? o' = s.overflow? o := by
        unfold RunState.overflow?
        rw [hs.depth, hs.host, looser.stackSize, Decidable.not_not.1 differ]
      rw [same, full]
      exact .throw e
  | none =>
    obtain ⟨shallow, light⟩ := RunState.overflow?_eq_none_iff.1 full
    have room : s'.overflow? o' = none := by
      rw [RunState.overflow?_eq_none_iff, hs.depth, hs.host, looser.stackSize]
      exact ⟨Nat.lt_of_lt_of_le shallow looser.maxDepth, light⟩
    rw [room]
    exact .pure trivial

theorem nested_twins (looser : o.Looser o') {act : Run α} {act' : Run β}
    (h : (twins o o').Follows rel act act') : (twins o o').Follows rel (nested act) (nested act') :=
  nested_leaving_follows (checkOverflow_twins looser) (fun hs => hs.deeper)
    (fun hs => hs.shallower) h

end Run

open Run (twins)

namespace PendingCall

inductive Twin : PendingCall → PendingCall → Prop
  | registered (target : FuncId) {vs ws : List Value} (span : Span) : ValuesTwin vs ws →
    Twin (.registered target vs span) (.registered target ws span)
  | item {f g : FuncItem} {vs ws : List Value} (span : Span) : f.Twin g → ValuesTwin vs ws →
    Twin (.item f vs span) (.item g ws span)
  | callback {f g : FuncItem} {vs ws : List Value} (span : Span) : f.Twin g → ValuesTwin vs ws →
    Twin (.callback f vs span) (.callback g ws span)

end PendingCall

inductive Flow.Twin : Flow → Flow → Prop
  | done {v w : Value} : v.Twin w → Flow.Twin (.done v) (.done w)
  | call {next next' : PendingCall} : next.Twin next' → Flow.Twin (.call next) (.call next')

def Caller.Twins (o o' : Options) (call call' : Caller) : Prop :=
  ∀ {next next' : PendingCall}, next.Twin next' →
    (twins o o').Follows Value.Twin (call next) (call' next')

section

variable {o o' : Options} (looser : o.Looser o')

include looser

theorem FuncItem.checkUpdating_twins {f g : FuncItem} (h : f.Twin g) (updating : Bool) (span : Span) :
    (twins o o').Follows (fun _ _ => True) (f.checkUpdating updating span)
      (g.checkUpdating updating span) := by
  refine Likeness.Follows.read.bind fun r r' hr => ?_
  rw [hr.left, hr.right, h.looksLike.isUpdating_eq, h.looksLike.text_eq]
  simp only [Computation.throw_bind]
  rcases looser.mixedUpdates_cases with same | ⟨strict, loose, excused⟩
  · rw [same]
    refine .ite Iff.rfl (.ite Iff.rfl (.throw _) ?_) (.pure trivial)
    exact .ite Iff.rfl (.throw _) (.pure trivial)
  · rw [strict, loose]
    have lifted : ∀ e : QueryError, e.ConcernsUpdates → (twins o o').Follows (fun _ _ => True)
        (throw e : Run Unit) (pure () : Run Unit) := fun e he => .excuse (Or.inl (excused e he))
    simp only [Bool.not_false, Bool.not_true, if_pos, Bool.false_eq_true, if_neg, not_false_iff]
    split
    · exact lifted _ trivial
    · split
      · exact lifted _ trivial
      · exact .pure trivial

theorem DynamicSite.callable_twins (site : DynamicSite) {v w : Value} (h : v.Twin w) (arity : Nat) :
    (twins o o').Follows FuncItem.Twin (site.callable v arity) (site.callable w arity) := by
  refine (Likeness.Follows.ofExcept (h.asFunc site.span)).bind fun f g hf => ?_
  rw [hf.looksLike.arity_eq, hf.looksLike.text_eq]
  simp only [Computation.throw_bind]
  refine .ite Iff.rfl (.throw _) ?_
  exact (FuncItem.checkUpdating_twins looser hf _ _).bind fun _ _ _ => .pure hf

end

theorem PartialSite.callable_twins {o o' : Options} (site : PartialSite) {v w : Value} (h : v.Twin w)
    (arity : Nat) :
    (twins o o').Follows FuncItem.Twin (site.callable v arity) (site.callable w arity) := by
  refine (Likeness.Follows.ofExcept (h.asFunc site.span)).bind fun f g hf => ?_
  rw [hf.looksLike.arity_eq, hf.looksLike.text_eq]
  exact .ite Iff.rfl ((Likeness.Follows.throw _).bind fun _ _ (_ : True) => .pure hf) (.pure hf)

section

variable {o o' : Options} (looser : o.Looser o') {call call' : Caller}
  (calls : Caller.Twins o o' call call')

include calls

theorem Caller.Twins.kindred : Caller.Kindred (twins o o') Value.Twin FuncItem.Twin call call' where
  invoke h hvs span := calls (.callback span h (valuesTwin_iff.2 hvs))
  random := Run.random_twins
  addUpdate := Run.addUpdate_twins

theorem Builtin.apply_twins (b : Builtin) {vs ws : List Value} (h : ValuesTwin vs ws) (span : Span) :
    (twins o o').Follows Value.Twin (b.apply call.invoke vs span) (b.apply call'.invoke ws span) :=
  Builtin.apply_follows Value.Twin.kinship calls.kindred b (valuesTwin_iff.1 h) span

omit calls

mutual
theorem Expr.evaluate_twins (looser : o.Looser o') (calls : Caller.Twins o o' call call') : (e : Expr) →
    (twins o o').Follows Value.Twin (e.evaluate call) (e.evaluate call')
  | .value v => .pure (.refl v)
  | .var ref => Run.get_twins ref.slot
  | .letIn _ slot value body => (Expr.evaluate_twins looser calls value).bind fun _ _ hv =>
    (Run.set_twins slot hv).bind fun _ _ _ => Expr.evaluate_twins looser calls body
  | .branch cond yes no span => (Expr.evaluate_twins looser calls cond).bind fun v w hv => by
    rw [hv.looksLike.ebv_eq]
    refine (Likeness.Follows.ofExcept (.refl (fun _ => rfl) _)).bind fun b _ same => ?_
    cases same
    exact .ite Iff.rfl (Expr.evaluate_twins looser calls yes) (Expr.evaluate_twins looser calls no)
  | .arith op lhs rhs span => (Expr.evaluate_twins looser calls lhs).bind fun l l' hl =>
    (Expr.evaluate_twins looser calls rhs).bind fun r r' hr => by
      rw [hl.looksLike.arith_eq hr.looksLike]
      exact .ofExcept (.refl .refl _)
  | .compare op lhs rhs span => (Expr.evaluate_twins looser calls lhs).bind fun l l' hl =>
    (Expr.evaluate_twins looser calls rhs).bind fun r r' hr => by
      rw [hl.looksLike.compare_eq hr.looksLike]
      refine (Likeness.Follows.ofExcept (.refl (fun _ => rfl) _)).bind fun b _ same => ?_
      cases same
      exact .pure (.bool b)
  | .seq items => (evaluateList_twins looser calls items).bind fun _ _ hvs => .pure (.ofItems hvs)
  | .focus span => Run.focus_twins span
  | .treat expr type span => (Expr.evaluate_twins looser calls expr).bind fun v w hv => by
    rw [hv.looksLike.accepts_eq, hv.looksLike.typeName_eq]
    exact .ite Iff.rfl (.pure hv) (.throw _)
  | .builtin function args span => (evaluateList_twins looser calls args).bind fun _ _ hvs =>
    Builtin.apply_twins calls function hvs span
  | .error e => .throw e
  | .closure c => (Closure.evaluate_twins looser calls c).bind fun _ _ hf => .pure (.func hf)
  | .literal _ c => (Closure.evaluate_twins looser calls c).bind fun _ _ hf => .pure (.func hf)
  | .partialApply site target args => (Expr.evaluate_twins looser calls target).bind fun v w hv =>
    (site.callable_twins hv _).bind fun f g hf =>
      (evaluateList_twins looser calls args).bind fun vs ws hvs =>
        (Run.draw_twins (PartialApplication.make_twin hf hvs _ _)).bind fun _ _ hg => .pure (.func hg)
  | .call site args => (evaluateList_twins looser calls args).bind fun vs ws hvs =>
    calls (.registered _ _ hvs)
  | .dynamicCall site callee args => (Expr.evaluate_twins looser calls callee).bind fun v w hv =>
    (site.callable_twins looser hv _).bind fun f g hf =>
      (evaluateList_twins looser calls args).bind fun vs ws hvs => calls (.item _ hf hvs)

theorem evaluateList_twins (looser : o.Looser o') (calls : Caller.Twins o o' call call') : (es : List Expr) →
    (twins o o').Follows ValuesTwin (evaluateList call es) (evaluateList call' es)
  | [] => .pure .nil
  | e :: es => (Expr.evaluate_twins looser calls e).bind fun _ _ hv =>
    (evaluateList_twins looser calls es).bind fun _ _ hvs => .pure (.cons hv hvs)

theorem Closure.evaluate_twins (looser : o.Looser o') (calls : Caller.Twins o o' call call') : (c : Closure) →
    (twins o o').Follows FuncItem.Twin (c.evaluate call) (c.evaluate call')
  | ⟨_, _, _, _, _, scope, captures, _, _, _⟩ => (evaluateSupplies_twins looser calls scope captures).bind
    fun _ _ hvs => Run.draw_twins (Closure.toItem_twin _ hvs)

theorem evaluateSupplies_twins (looser : o.Looser o') (calls : Caller.Twins o o' call call')
    (scope : Scope) : (es : List (VarId × Expr)) →
    (twins o o').Follows CapturedTwin (evaluateSupplies call scope es)
      (evaluateSupplies call' scope es)
  | [] => .pure .nil
  | (id, e) :: es => (Expr.evaluate_twins looser calls e).bind fun v w hv =>
    (evaluateSupplies_twins looser calls scope es).bind fun vs ws hvs => by
      cases scope.find? id with
      | some captured => exact .pure (.cons captured hv hvs)
      | none => exact .pure hvs
end

end

end QueryFunctions
