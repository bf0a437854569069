import QueryFunctions.Proofs.Form.Basic
import QueryFunctions.Proofs.Run.Brackets
import QueryFunctions.Run.Evaluation

/-! Computations that the focus makes no difference to. A call is one whatever it calls, since function
bodies are run without a focus; other code is one if it stands where it may not ask for the focus. -/
namespace QueryFunctions

namespace Run

variable {α β : Type}

/-- The same fault, or the same value or error and states that differ in the focus only. -/
inductive Alike (focus : Option Value) :
    Except Fault (Except QueryError α) × RunState → Except Fault (Except QueryError α) × RunState → Prop
  | ended {result t} : Alike focus (.ok result, t) (.ok result, t.focused focus)
  | met {f t u} : Alike focus (.error f, t) (.error f, u)

/-- Started with another focus, the computation ends alike. -/
def Blind (act : Run α) : Prop := ∀ r s focus, Alike focus (act r s) (act r (s.focused focus))

theorem Alike.leaving {focus : Option Value} {leave leave' : RunState → RunState}
    {p q : Except Fault (Except QueryError α) × RunState} (h : Alike focus p q)
    (same : ∀ t : RunState, leave' (t.focused focus) = (leave t).focused focus) :
    Alike focus (Run.leaving leave p) (Run.leaving leave' q) := by
  cases h with
  | ended =>
    rw [Run.leaving, Run.leaving, same]
    exact .ended
  | met => exact .met

theorem Alike.fst_eq {focus : Option Value} {p q : Except Fault (Except QueryError α) × RunState}
    (h : Alike focus p q) : q.1 = p.1 := by
  cases h with
  | ended => rfl
  | met => rfl

namespace Blind

theorem pure (a : α) : Blind (Pure.pure a) := fun _ _ _ => .ended

theorem throw (e : QueryError) : Blind (throw e : Run α) := fun _ _ _ => .ended

theorem fault (f : Fault) : Blind (Run.fault f : Run α) := fun _ _ _ => .met

theorem bind {act : Run α} {next : α → Run β} (first : Blind act) (second : ∀ a, Blind (next a)) :
    Blind (act >>= next) := by
  intro r s focus
  have ended := first r s focus
  rw [Computation.run_bind, Computation.run_bind]
  generalize act r s = p at ended ⊢
  generalize act r (s.focused focus) = q at ended ⊢
  cases ended with
  | @ended result t =>
    cases result with
    | ok a => exact second a r t focus
    | error e => exact .ended
  | met => exact .met

theorem read : Blind (MonadReader.read : Run RunSetting) := fun _ _ _ => .ended

theorem ofExcept (result : Except QueryError α) : Blind (ofExcept result : Run α) := by
  cases result with
  | ok a => exact pure a
  | error e => exact throw e

theorem ite {p : Prop} [Decidable p] {yes no : Run α} (hyes : Blind yes) (hno : Blind no) :
    Blind (if p then yes else no) := by
  split
  · exact hyes
  · exact hno

theorem mapM {f : α → Run β} (each : ∀ a, Blind (f a)) (as : List α) : Blind (as.mapM f) := by
  induction as with
  | nil =>
    rw [List.mapM_nil]
    exact pure _
  | cons a as ih =>
    rw [List.mapM_cons]
    exact (each a).bind fun _ => ih.bind fun _ => pure _

theorem forM {f : α → Run PUnit} (each : ∀ a, Blind (f a)) (as : List α) : Blind (as.forM f) := by
  induction as with
  | nil => exact pure _
  | cons a as ih => exact (each a).bind fun _ => ih

theorem foldlM {f : β → α → Run β} (each : ∀ b a, Blind (f b a)) (as : List α) (b : β) :
    Blind (as.foldlM f b) := by
  induction as generalizing b with
  | nil => exact pure b
  | cons a as ih =>
    rw [List.foldlM_cons]
    exact (each b a).bind fun b => ih b

theorem filterM {f : α → Run Bool} (each : ∀ a, Blind (f a)) (as : List α) :
    Blind (as.filterM f) := by
  have gathering : ∀ as acc, Blind (List.filterAuxM f as acc) := by
    intro as
    induction as with
    | nil => exact fun acc => pure acc
    | cons a as ih => exact fun acc => (each a).bind fun _ => ih _
  exact (gathering as []).bind fun _ => pure _

theorem draw (act : Supplied α) : Blind (Run.draw act) := by
  intro r s focus
  have same : (s.focused focus).supply = s.supply := rfl
  unfold Run.draw
  rw [same]
  cases act s.supply with
  | ok p => exact .ended
  | error f => exact .met

theorem get (slot : Nat) : Blind (Run.get slot) := by
  intro r s focus
  have state : ∀ s : RunState, (getThe RunState : Run RunState) r s = (.ok (.ok s), s) := fun _ => rfl
  have same : (s.focused focus).stack[(s.focused focus).base + slot]? = s.stack[s.base + slot]? := rfl
  unfold Run.get
  rw [Computation.run_bind, Computation.run_bind, state, state]
  dsimp only
  rw [same]
  cases s.stack[s.base + slot]? with
  | some v => exact .ended
  | none => exact .met

theorem set (slot : Nat) (v : Value) : Blind (Run.set slot v) := by
  intro r s focus
  have run : ∀ s : RunState, Run.set slot v r s = (if s.base + slot < s.stack.size then
      (modify fun s => { s with stack := s.stack.setIfInBounds (s.base + slot) v } : Run Unit)
    else Run.fault (.slotOutsideFrame slot)) r s := fun _ => rfl
  have same : (s.focused focus).base + slot < (s.focused focus).stack.size ↔
    s.base + slot < s.stack.size := .rfl
  rw [run, run]
  by_cases inside : s.base + slot < s.stack.size
  · rw [if_pos inside, if_pos (same.2 inside)]
    exact .ended
  · rw [if_neg inside, if_neg (inside ∘ same.1)]
    exact .met

theorem addUpdate (v : Value) : Blind (Run.addUpdate v) := fun _ _ _ => .ended

theorem takeUpdates : Blind Run.takeUpdates := fun _ _ _ => .ended

theorem random (bound : Int64) : Blind (Run.random bound) := fun _ _ _ => .ended

theorem checkInterrupt : Blind Run.checkInterrupt := by
  have now : Blind nextMoment := fun _ _ _ => .ended
  exact now.bind fun _ => ite (throw _) (pure _)

theorem nested {act : Run α} (h : Blind act) : Blind (Run.nested act) := by
  intro r s focus
  have same : (s.focused focus).overflow? r.options = s.overflow? r.options := rfl
  rw [nested_run, nested_run, same]
  split
  · exact .ended
  · exact (h r s.deeper focus).leaving fun _ => rfl

theorem inFrame (size : Nat) {act : Run α} (h : Blind act) : Blind (Run.inFrame size act) := by
  intro r s focus
  rw [inFrame_run, inFrame_run]
  exact (h r (s.pushed size) focus).leaving fun _ => rfl

theorem withoutFocus (act : Run α) : Blind (Run.withoutFocus act) := by
  intro r s focus
  rw [withoutFocus_run, withoutFocus_run]
  change Alike focus (leaving _ (act r (s.focused none))) (leaving _ (act r (s.focused none)))
  rcases act r (s.focused none) with ⟨f | result, t⟩
  · exact .met
  · exact .ended

theorem bindParams (function : String) (span : Span) :
    ∀ (vs : List Variable) (args : List Value), Blind (Run.bindParams function span vs args)
  | [], _ => pure _
  | _ :: _, [] => pure _
  | v :: vs, arg :: args => by
    have rest : Blind (do Run.set v.slot arg; Run.bindParams function span vs args) :=
      (set v.slot arg).bind fun _ => bindParams function span vs args
    unfold Run.bindParams
    split
    · exact ite ((throw _).bind fun _ => rest) rest
    · exact rest

end Blind

end Run

open Run (Blind)

theorem FuncItem.checkUpdating_blind (f : FuncItem) (updating : Bool) (span : Span) :
    Blind (f.checkUpdating updating span) := by
  refine Blind.read.bind fun setting => .ite ?_ (.pure _)
  have second : Blind (if (!f.isUpdating && updating) = true then
      throw (.calleeNotUpdating f.text span) else Pure.pure PUnit.unit) := .ite (.throw _) (.pure _)
  exact .ite ((Blind.throw _).bind fun _ => second) second

theorem DynamicSite.callable_blind (site : DynamicSite) (callee : Value) (arity : Nat) :
    Blind (site.callable callee arity) := by
  refine (Blind.ofExcept _).bind fun f => ?_
  have rest : Blind (do f.checkUpdating site.updating site.span; return f) :=
    (f.checkUpdating_blind _ _).bind fun _ => .pure _
  exact .ite ((Blind.throw _).bind fun _ => rest) rest

theorem PartialSite.callable_blind (site : PartialSite) (target : Value) (arity : Nat) :
    Blind (site.callable target arity) :=
  (Blind.ofExcept _).bind fun _ => .ite ((Blind.throw _).bind fun _ => .pure _) (.pure _)

theorem Run.bodyOf_blind (target : FuncId) (span : Span) : Blind (bodyOf target span) := by
  refine Blind.read.bind fun setting => ?_
  split
  · exact .fault _
  · split
    · exact .pure _
    · exact .throw _
    · exact .throw _

def Caller.Blind (call : Caller) : Prop := ∀ next, Run.Blind (call next)

section

variable {call : Caller} (calls : call.Blind)

include calls

namespace Builtin

theorem test_blind (f : FuncItem) (span : Span) (v : Value) : Blind (test call.invoke f span v) := by
  refine (calls _).bind fun w => ?_
  split
  · exact .pure _
  · exact .throw _

theorem apply_blind (b : Builtin) (args : List Value) (span : Span) :
    Blind (b.apply call.invoke args span) := by
  unfold apply
  split
  · exact (Blind.ofExcept _).bind fun f => (Blind.mapM (fun v => calls _) _).bind fun _ => .pure _
  · exact (Blind.ofExcept _).bind fun f =>
      (Blind.filterM (test_blind calls f span) _).bind fun _ => .pure _
  · exact (Blind.ofExcept _).bind fun f => Blind.foldlM (fun _ _ => calls _) _ _
  · exact (Blind.ofExcept _).bind fun _ => .pure _
  · exact (Blind.ofExcept _).bind fun _ => .pure _
  · exact .pure _
  · exact (Blind.ofExcept _).bind fun _ => (Blind.random _).bind fun _ => .pure _
  · exact .throw _
  · exact (Blind.addUpdate _).bind fun _ => .pure _
  · exact .throw _

end Builtin

namespace Run

theorem stepItem_blind (f : FuncItem) (args : List Value) (span : Span) :
    Blind (stepItem call f args span) := by
  unfold stepItem
  generalize f.code = code
  cases code with
  | builtin b =>
    have rest := (Builtin.apply_blind calls b args span).bind fun v => .pure (Flow.done v)
    exact .ite ((Blind.throw _).bind fun _ => rest) rest
  | closure params captured body scope =>
    have entered := (Blind.forM (fun q : Variable × Value => .set q.1.slot q.2) captured).bind
      fun _ => (Blind.bindParams f.text span params args).bind fun _ =>
        .withoutFocus (body.evaluateTail call)
    exact .ite ((Blind.throw _).bind fun _ => .inFrame _ entered) (.inFrame _ entered)

theorem step_blind (next : PendingCall) : Blind (step call next) := by
  cases next with
  | registered target args span =>
    refine (bodyOf_blind target span).bind fun p => .inFrame _ ?_
    exact (Blind.bindParams _ _ _ _).bind fun _ => .withoutFocus _
  | item f args span | callback f args span => exact stepItem_blind calls f args span

end Run

end

namespace Run

theorem loop_blind (budget : Nat) (next : PendingCall) : Blind (loop budget next) := by
  induction budget generalizing next with
  | zero => exact .fault _
  | succ budget ih =>
    have calls : Caller.Blind fun inner => nested (loop budget inner) := fun inner => (ih inner).nested
    refine Blind.checkInterrupt.bind fun _ => (step_blind calls next).bind fun flow => ?_
    cases flow with
    | done v => exact .pure v
    | call next => exact ih next

theorem call_blind (budget : Nat) : (call budget).Blind := fun next => (loop_blind budget next).nested

end Run

section

variable {call : Caller} (calls : call.Blind) {w : World}

mutual
theorem Expr.evaluate_blind (calls : call.Blind) : (e : Expr) → {p : Place} → ¬p.focus → e.Formed w p →
    Blind (e.evaluate call)
  | .value _, _, _, _ => .pure _
  | .var ref, _, _, _ => .get ref.slot
  | .letIn _ slot value body, _, blind, .letIn _ _ hvalue hbody =>
    (Expr.evaluate_blind calls value blind hvalue).bind fun v =>
      (Blind.set slot v).bind fun _ => Expr.evaluate_blind calls body (by exact blind) hbody
  | .branch cond yes no _, _, blind, .branch hcond hyes hno =>
    (Expr.evaluate_blind calls cond blind hcond).bind fun _ => (Blind.ofExcept _).bind fun _ =>
      .ite (Expr.evaluate_blind calls yes blind hyes) (Expr.evaluate_blind calls no blind hno)
  | .arith _ lhs rhs _, _, blind, .arith hl hr =>
    (Expr.evaluate_blind calls lhs blind hl).bind fun _ =>
    (Expr.evaluate_blind calls rhs blind hr).bind fun _ =>
      .ofExcept _
  | .compare _ lhs rhs _, _, blind, .compare hl hr =>
    (Expr.evaluate_blind calls lhs blind hl).bind fun _ =>
    (Expr.evaluate_blind calls rhs blind hr).bind fun _ =>
      (Blind.ofExcept _).bind fun _ => .pure _
  | .seq items, _, blind, .seq all => (evaluateList_blind calls items blind all).bind fun _ => .pure _
  | .focus _, _, blind, .focus sees => absurd sees blind
  | .treat expr _ _, _, blind, .treat he =>
    (Expr.evaluate_blind calls expr blind he).bind fun _ => .ite (.pure _) (.throw _)
  | .builtin function args span, _, blind, .builtin all =>
    (evaluateList_blind calls args blind all).bind fun vs => Builtin.apply_blind calls function vs span
  | .error e, _, _, _ => .throw e
  | .closure c, _, blind, .closure hc => (Closure.evaluate_blind calls c blind hc).bind fun _ => .pure _
  | .literal _ c, _, blind, .literal _ _ hc =>
    (Closure.evaluate_blind calls c blind hc).bind fun _ => .pure _
  | .partialApply site target args, _, blind, .partialApply _ htarget hargs =>
    (Expr.evaluate_blind calls target blind htarget).bind fun _ => (site.callable_blind _ _).bind fun _ =>
      (evaluateList_blind calls args blind hargs).bind fun _ => (Blind.draw _).bind fun _ => .pure _
  | .call _ args, _, blind, .call _ hargs => (evaluateList_blind calls args blind hargs).bind fun _ => calls _
  | .dynamicCall site callee args, _, blind, .dynamicCall hcallee hargs =>
    (Expr.evaluate_blind calls callee blind hcallee).bind fun _ => (site.callable_blind _ _).bind fun _ =>
      (evaluateList_blind calls args blind hargs).bind fun _ => calls _

theorem evaluateList_blind (calls : call.Blind) : (es : List Expr) → {p : Place} → ¬p.focus →
    (∀ e ∈ es, e.Formed w p) → Blind (evaluateList call es)
  | [], _, _, _ => .pure _
  | e :: es, _, blind, all =>
    (Expr.evaluate_blind calls e blind (all e List.mem_cons_self)).bind fun _ =>
      (evaluateList_blind calls es blind fun x mem => all x (List.mem_cons_of_mem _ mem)).bind fun _ =>
        .pure _

theorem Closure.evaluate_blind (calls : call.Blind) : (c : Closure) → {p : Place} → ¬p.focus → c.Formed w p →
    Blind (c.evaluate call)
  | ⟨_, _, _, _, _, scope, captures, _, _, _⟩, p, blind, hc => by
    have supplied : ∀ x ∈ captures, x.2.Formed w p := by
      cases hc with
      | intro _ _ hcaptures _ => exact hcaptures
    exact (evaluateSupplies_blind calls scope captures blind supplied).bind fun _ => .draw _

theorem evaluateSupplies_blind (calls : call.Blind) (scope : Scope) :
    (es : List (VarId × Expr)) → {p : Place} → ¬p.focus →
    (∀ x ∈ es, x.2.Formed w p) → Blind (evaluateSupplies call scope es)
  | [], _, _, _ => .pure _
  | (id, e) :: es, _, blind, all =>
    (Expr.evaluate_blind calls e blind (all (id, e) List.mem_cons_self)).bind fun _ =>
      (evaluateSupplies_blind calls scope es blind fun x mem => all x (List.mem_cons_of_mem _ mem)).bind
        fun _ => .pure _
end

end

end QueryFunctions
