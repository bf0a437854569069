import QueryFunctions.Proofs.Run.Restoration
import QueryFunctions.Proofs.Tail.State

/-! Evaluation of code with more tail calls. Evaluation itself does not look at the marks, so it is
followed step by step, as long as the calls that it makes are. -/
namespace QueryFunctions

open Run (tails)

namespace PendingCall

/-- The same call, with more tail calls in the values that it carries. -/
inductive MoreTail : PendingCall → PendingCall → Prop
  | registered (target : FuncId) {vs ws : List Value} (span : Span) : ValuesMoreTail vs ws →
    MoreTail (.registered target vs span) (.registered target ws span)
  | item {f g : FuncItem} {vs ws : List Value} (span : Span) : f.MoreTail g → ValuesMoreTail vs ws →
    MoreTail (.item f vs span) (.item g ws span)
  | callback {f g : FuncItem} {vs ws : List Value} (span : Span) : f.MoreTail g →
    ValuesMoreTail vs ws → MoreTail (.callback f vs span) (.callback g ws span)

end PendingCall

/-- Calls that are made by `call'` follow those made by `call`, where only effects matter. -/
structure Caller.Follows (call call' : Caller) : Prop where
  follows : ∀ {next next' : PendingCall}, next.MoreTail next' →
    (tails False False).Follows Value.MoreTail (call next) (call' next')
  left : call.GivesBack
  right : call'.GivesBack

section

variable {framed focused : Prop}

namespace FuncItem

theorem checkUpdating_follows {f g : FuncItem} (h : f.MoreTail g) (updating : Bool) (span : Span) :
    (tails framed focused).Follows (fun _ _ => True) (f.checkUpdating updating span)
      (g.checkUpdating updating span) := by
  refine Likeness.Follows.read.bind fun r r' hr => ?_
  rw [hr.options.mixedUpdates_eq, h.looksLike.isUpdating_eq, h.looksLike.text_eq]
  have second : (tails framed focused).Follows (fun _ _ => True)
      (if (!f.isUpdating && updating) = true then throw (.calleeNotUpdating f.text span)
        else pure PUnit.unit)
      (if (!f.isUpdating && updating) = true then throw (.calleeNotUpdating f.text span)
        else pure PUnit.unit) := .ite Iff.rfl (.throw _) (.pure trivial)
  refine .ite Iff.rfl (.ite Iff.rfl ?_ second) (.pure trivial)
  exact (Likeness.Follows.throw _).bind fun _ _ (_ : True) => second

end FuncItem

theorem DynamicSite.callable_follows {site site' : DynamicSite} (hsite : site.MoreTail site')
    {v w : Value} (h : v.MoreTail w) (arity : Nat) :
    (tails framed focused).Follows FuncItem.MoreTail (site.callable v arity)
      (site'.callable w arity) := by
  unfold callable
  rw [hsite.span_eq, hsite.updating_eq]
  refine (Likeness.Follows.ofExcept (h.asFunc site.span)).bind fun f g hf => ?_
  rw [hf.looksLike.arity_eq, hf.looksLike.text_eq]
  have rest : (tails framed focused).Follows FuncItem.MoreTail
      (do f.checkUpdating site.updating site.span; return f)
      (do g.checkUpdating site.updating site.span; return g) :=
    (FuncItem.checkUpdating_follows hf _ _).bind fun _ _ _ => .pure hf
  exact .ite Iff.rfl ((Likeness.Follows.throw _).bind fun _ _ (_ : True) => rest) rest

theorem PartialSite.callable_follows (site : PartialSite) {v w : Value} (h : v.MoreTail w)
    (arity : Nat) :
    (tails framed focused).Follows FuncItem.MoreTail (site.callable v arity)
      (site.callable w arity) := by
  refine (Likeness.Follows.ofExcept (h.asFunc site.span)).bind fun f g hf => ?_
  rw [hf.looksLike.arity_eq, hf.looksLike.text_eq]
  exact .ite Iff.rfl ((Likeness.Follows.throw _).bind fun _ _ (_ : True) => .pure hf) (.pure hf)

namespace Caller.Follows

variable {call call' : Caller} (calls : call.Follows call')

include calls

theorem made {next next' : PendingCall} (h : next.MoreTail next') :
    (tails framed focused).Follows Value.MoreTail (call next) (call' next') := by
  intro r r' s s' hr hs result t run free
  obtain ⟨result', t', run', ends, ht⟩ := calls.follows h r r' s s' hr hs.outer _ _ run free
  obtain ⟨-, back, -⟩ := calls.left next r s _ _ run
  obtain ⟨-, back', -⟩ := calls.right next' r' s' _ _ run'
  refine ⟨result', t', run', ends, { ht with frame := fun h k => ?_, focus := fun h => ?_ }⟩
  · rw [back.stack_eq, back.base, back'.stack_eq, back'.base]
    exact hs.frame h k
  · rw [back.focus, back'.focus]
    exact hs.focus h

theorem kindred :
    Caller.Kindred (tails framed focused) Value.MoreTail FuncItem.MoreTail call call' where
  invoke h hvs span := calls.made (.callback span h (valuesMoreTail_iff.2 hvs))
  random := Run.random_follows
  addUpdate := Run.addUpdate_follows

end Caller.Follows

theorem Builtin.apply_moreTail {call call' : Caller} (calls : call.Follows call') (b : Builtin)
    {vs ws : List Value} (h : ValuesMoreTail vs ws) (span : Span) :
    (tails framed focused).Follows Value.MoreTail (b.apply call.invoke vs span)
      (b.apply call'.invoke ws span) :=
  Builtin.apply_follows Value.MoreTail.kinship calls.kindred b (valuesMoreTail_iff.1 h) span

end

section

variable {call call' : Caller} (calls : call.Follows call')

mutual
theorem Expr.MoreTail.evaluate_follows (calls : call.Follows call') : {e e' : Expr} → e.MoreTail e' →
    (tails True True).Follows Value.MoreTail (e.evaluate call) (e'.evaluate call')
  | _, _, .value h => .pure h
  | _, _, .var ref => Run.get_follows ref.slot
  | _, _, .letIn _ slot h h' => (h.evaluate_follows calls).bind fun _ _ hv =>
    (Run.set_follows slot hv).bind fun _ _ _ => h'.evaluate_follows calls
  | _, _, .branch span h h' h'' => (h.evaluate_follows calls).bind fun v w hv => by
    rw [hv.looksLike.ebv_eq]
    refine (Likeness.Follows.ofExcept (.refl (fun _ => rfl) _)).bind fun b _ same => ?_
    cases same
    exact .ite Iff.rfl (h'.evaluate_follows calls) (h''.evaluate_follows calls)
  | _, _, .arith op span h h' => (h.evaluate_follows calls).bind fun l l' hl =>
    (h'.evaluate_follows calls).bind fun r r' hr => by
      rw [hl.looksLike.arith_eq hr.looksLike]
      exact .ofExcept (.refl .refl _)
  | _, _, .compare op span h h' => (h.evaluate_follows calls).bind fun l l' hl =>
    (h'.evaluate_follows calls).bind fun r r' hr => by
      rw [hl.looksLike.compare_eq hr.looksLike]
      refine (Likeness.Follows.ofExcept (.refl (fun _ => rfl) _)).bind fun b _ same => ?_
      cases same
      exact .pure (.bool b)
  | _, _, .seq h => (h.evaluate_follows calls).bind fun _ _ hvs => .pure (.ofItems hvs)
  | _, _, .focus span => Run.focus_follows span
  | _, _, .treat type span h => (h.evaluate_follows calls).bind fun v w hv => by
    rw [hv.looksLike.accepts_eq, hv.looksLike.typeName_eq]
    exact .ite Iff.rfl (.pure hv) (.throw _)
  | _, _, .builtin function span h => (h.evaluate_follows calls).bind fun _ _ hvs =>
    Builtin.apply_moreTail calls function hvs span
  | _, _, .error e => .throw e
  | _, _, .closure h => (h.evaluate_follows calls).bind fun _ _ hf => .pure (.func hf)
  | _, _, .literal _ h => (h.evaluate_follows calls).bind fun _ _ hf => .pure (.func hf)
  | _, _, .partialApply site h h' => (h.evaluate_follows calls).bind fun v w hv => by
    rw [h'.length_eq]
    refine (site.callable_follows hv _).bind fun f g hf => ?_
    refine (h'.evaluate_follows calls).bind fun vs ws hvs => ?_
    exact (Run.draw_follows (PartialApplication.make_moreTail hf hvs _ _)).bind fun _ _ hg =>
      .pure (.func hg)
  | _, _, .call hsite h => (h.evaluate_follows calls).bind fun vs ws hvs => by
    rw [hsite.target_eq, hsite.span_eq]
    exact calls.made (.registered _ _ hvs)
  | _, _, .dynamicCall hsite h h' => (h.evaluate_follows calls).bind fun v w hv => by
    rw [h'.length_eq, hsite.span_eq]
    refine (DynamicSite.callable_follows hsite hv _).bind fun f g hf => ?_
    exact (h'.evaluate_follows calls).bind fun vs ws hvs => calls.made (.item _ hf hvs)

theorem ListMoreTail.evaluate_follows (calls : call.Follows call') :
    {es es' : List Expr} → ListMoreTail es es' →
    (tails True True).Follows ValuesMoreTail (evaluateList call es) (evaluateList call' es')
  | _, _, .nil => .pure .nil
  | _, _, .cons h h' => (h.evaluate_follows calls).bind fun _ _ hv =>
    (h'.evaluate_follows calls).bind fun _ _ hvs => .pure (.cons hv hvs)

theorem Closure.MoreTail.evaluate_follows (calls : call.Follows call') : {c c' : Closure} → c.MoreTail c' →
    (tails True True).Follows FuncItem.MoreTail (c.evaluate call) (c'.evaluate call')
  | _, _, .closure name params declared annotations scope origin compiled span h hbody =>
    (h.evaluate_follows calls scope).bind fun _ _ hvs => Run.draw_follows (Closure.MoreTail.toItem
      (.closure name params declared annotations scope origin compiled span h hbody) hvs)

theorem SuppliesMoreTail.evaluate_follows (calls : call.Follows call') (scope : Scope) :
    {es es' : List (VarId × Expr)} →
    SuppliesMoreTail es es' → (tails True True).Follows CapturedMoreTail
      (evaluateSupplies call scope es) (evaluateSupplies call' scope es')
  | _, _, .nil => .pure .nil
  | _, _, .cons id h h' => (h.evaluate_follows calls).bind fun v w hv =>
    (h'.evaluate_follows calls scope).bind fun vs ws hvs => by
      cases scope.find? id with
      | some captured => exact .pure (.cons captured hv hvs)
      | none => exact .pure hvs
end

end

end QueryFunctions
