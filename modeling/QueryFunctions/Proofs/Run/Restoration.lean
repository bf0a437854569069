import Mathlib
import QueryFunctions.Proofs.Run.Discipline

/-! What evaluation gives back. Whatever code is run, in whatever state, and whether it ends with a
value or with an error: the frames, the depth and the focus are those that it found, and updates are
only added at the end. Code may write to slots of the frame that it runs in, a call to none. The host
may cancel the run, or have no room on the native stack, at any call. -/
namespace QueryFunctions

/-- States may change as `a` allows, whatever they hold. -/
def frameLaw (a : Allowance) : Law RunState where
  holds _ := True
  leads := RunState.Allows a
  refl := RunState.Allows.refl a
  trans := RunState.Allows.trans

namespace RunState

/-- What evaluation leaves as it was. -/
structure Restored (s t : RunState) : Prop where
  size : t.stack.size = s.stack.size
  base : t.base = s.base
  depth : t.depth = s.depth
  focus : t.focus = s.focus
  below : ∀ i < s.base, t.stack[i]? = s.stack[i]?
  updates : s.updates <+: t.updates

variable {s t : RunState}

theorem Allows.restored (kept : Allows .all s t) : s.Restored t where
  size := kept.size
  base := kept.base
  depth := kept.depth
  focus := kept.focus
  below i hi := kept.cells i fun k hk _ => by omega
  updates := by
    obtain ⟨more, eq, -⟩ := kept.updates
    exact ⟨more, eq.symm⟩

theorem Allows.stack_eq {a : Allowance} (kept : Allows a.still s t) : t.stack = s.stack :=
  Array.ext_getElem? fun i => kept.cells i fun _ _ => id

end RunState

variable {a : Allowance}

namespace Run

variable {α β : Type}

/-- However the computation ends, it changes the state as `a` allows. -/
def Restores (a : Allowance) (act : Run α) : Prop :=
  ∀ r s, (frameLaw a).Keeps r s act fun _ _ => True

namespace Restores

theorem pure (v : α) : Restores a (Pure.pure v) := fun _ _ => Law.Keeps.pure trivial trivial

theorem throw (e : QueryError) : Restores a (throw e : Run α) := fun _ _ => Law.Keeps.throw trivial

theorem ofExcept (result : Except QueryError α) : Restores a (ofExcept result : Run α) :=
  fun _ _ => (Law.Keeps.ofExcept trivial).mono fun _ _ _ _ _ => trivial

theorem fault (f : Fault) : Restores a (Run.fault f : Run α) := fun _ _ => Law.Keeps.of_fault rfl

theorem read : Restores a (MonadReader.read : Run RunSetting) :=
  fun _ _ => (Law.Keeps.read trivial).mono fun _ _ _ _ _ => trivial

theorem getState : Restores a (getThe RunState : Run RunState) :=
  fun _ _ => (Law.Keeps.get trivial).mono fun _ _ _ _ _ => trivial

theorem bind {act : Run α} {next : α → Run β} (first : Restores a act)
    (second : ∀ v, Restores a (next v)) : Restores a (act >>= next) :=
  fun r s => (first r s).bind fun v t _ _ _ => second v r t

theorem ite {p : Prop} [Decidable p] {yes no : Run α} (hyes : Restores a yes)
    (hno : Restores a no) : Restores a (if p then yes else no) := by
  split
  · exact hyes
  · exact hno

theorem mono {b : Allowance} {act : Run α} (h : a ≤ b) (kept : Restores a act) : Restores b act := by
  intro r s result t run
  obtain ⟨ht, hst, value⟩ := kept r s result t run
  exact ⟨ht, hst.mono h, value⟩

theorem mapM {f : α → Run β} (each : ∀ v, Restores a (f v)) (vs : List α) :
    Restores a (vs.mapM f) := by
  intro r s
  have kept : (frameLaw a).Keeps r s (vs.mapM f) fun ws _ => ∀ w ∈ ws, True :=
    Law.Keeps.mapM (fun v t _ (_ : True) => each v r t) vs s trivial fun _ _ => trivial
  exact kept.mono fun _ _ _ _ _ => trivial

theorem forM {f : α → Run PUnit} (each : ∀ v, Restores a (f v)) (vs : List α) :
    Restores a (vs.forM f) := fun r s =>
  Law.Keeps.forM (fun v t _ (_ : True) => each v r t) vs s trivial fun _ _ => trivial

theorem foldlM {f : β → α → Run β} (each : ∀ w v, Restores a (f w v)) (vs : List α) (w : β) :
    Restores a (vs.foldlM f w) := fun r s =>
  Law.Keeps.foldlM (fun _ _ _ _ (_ : True) => trivial)
    (fun w v t _ _ (_ : True) => each w v r t) vs w s trivial trivial fun _ _ => trivial

theorem filterM {f : α → Run Bool} (each : ∀ v, Restores a (f v)) (vs : List α) :
    Restores a (vs.filterM f) := by
  intro r s
  have kept : (frameLaw a).Keeps r s (vs.filterM f) fun ws _ => ∀ w ∈ ws, True :=
    Law.Keeps.filterM (fun v t _ (_ : True) => each v r t) vs trivial fun _ _ => trivial
  exact kept.mono fun _ _ _ _ _ => trivial

theorem draw (act : Supplied α) : Restores a (Run.draw act) := by
  intro r s result t run
  unfold Run.draw at run
  split at run
  · cases run
    exact ⟨trivial, { RunState.Allows.refl a s with }, fun _ _ => trivial⟩
  · cases run

theorem get (slot : Nat) : Restores a (Run.get slot) := by
  refine getState.bind fun s => ?_
  split
  · exact pure _
  · exact fault _

theorem set (slot : Nat) (v : Value) (allowed : a.slot slot) : Restores a (Run.set slot v) := by
  refine fun r s => Law.Keeps.bind (Law.Keeps.get trivial) fun _ t _ _ same => ?_
  obtain ⟨rfl, rfl⟩ := same
  split
  · refine Law.Keeps.of_eq rfl trivial ?_ trivial
    refine { RunState.Allows.refl a t with size := by simp, cells := fun i free => ?_ }
    have apart : t.base + slot ≠ i := fun eq => free slot eq.symm allowed
    simp [apart]
  · exact Law.Keeps.of_fault rfl

theorem focus (span : Span) : Restores a (Run.focus span) := by
  refine getState.bind fun s => ?_
  split
  · exact pure _
  · exact throw _

theorem checkInterrupt : Restores a Run.checkInterrupt := by
  have now : Restores a nextMoment := fun _ s =>
    Law.Keeps.of_eq rfl trivial { RunState.Allows.refl a s with } trivial
  exact now.bind fun _ => ite (throw _) (pure _)

theorem addUpdate (updates : a.updates) (v : Value) : Restores a (Run.addUpdate v) := fun _ s =>
  Law.Keeps.of_eq rfl trivial
    { RunState.Allows.refl a s with updates := ⟨[v], rfl, .inl updates⟩ } trivial

theorem random (draws : a.draws) (bound : Int64) : Restores a (Run.random bound) := fun _ s =>
  Law.Keeps.of_eq rfl trivial { RunState.Allows.refl a s with random := .inl draws } trivial

theorem nested {act : Run α} (kept : Restores a act) : Restores a (Run.nested act) := fun r s =>
  nested_leaving_keeps trivial (kept r s.deeper) fun _ _ kept => ⟨trivial, kept.shallower⟩

theorem withoutFocus {act : Run α} (kept : Restores a act) : Restores a (Run.withoutFocus act) :=
  fun r s => leaving_keeps (withoutFocus_run act r s) (kept r (s.focused none))
    fun _ _ kept => ⟨trivial, kept.focused⟩

theorem inFrame {act : Run α} (size : Nat) (kept : Restores a.wide act) :
    Restores a (Run.inFrame size act) :=
  fun r s => leaving_keeps (inFrame_run size act r s) (kept r (s.pushed size))
    fun _ _ kept => ⟨trivial, kept.popped.2⟩

theorem bindParams (function : String) (span : Span) :
    ∀ (params : List Variable) (args : List Value),
      Restores .all (Run.bindParams function span params args)
  | [], _ => pure _
  | _ :: _, [] => pure _
  | p :: ps, v :: vs => by
    have rest : Restores .all (do Run.set p.slot v; Run.bindParams function span ps vs) :=
      (set p.slot v trivial).bind fun _ => bindParams function span ps vs
    unfold Run.bindParams
    split
    · split
      · exact (throw _).bind fun _ => rest
      · exact rest
    · exact rest

end Restores

end Run

open Run (Restores)

theorem FuncItem.checkUpdating_restores (f : FuncItem) (updating : Bool) (span : Span) :
    Restores a (f.checkUpdating updating span) := by
  refine Restores.read.bind fun setting => Restores.ite ?_ (.pure _)
  have second : Restores a (if (!f.isUpdating && updating) = true then
      throw (.calleeNotUpdating f.text span) else Pure.pure PUnit.unit) := .ite (.throw _) (.pure _)
  exact .ite ((Restores.throw _).bind fun _ => second) second

theorem DynamicSite.callable_restores (site : DynamicSite) (callee : Value) (arity : Nat) :
    Restores a (site.callable callee arity) := by
  refine (Restores.ofExcept _).bind fun f => ?_
  have rest : Restores a (do f.checkUpdating site.updating site.span; return f) :=
    (f.checkUpdating_restores _ _).bind fun _ => .pure _
  exact .ite ((Restores.throw _).bind fun _ => rest) rest

theorem PartialSite.callable_restores (site : PartialSite) (target : Value) (arity : Nat) :
    Restores a (site.callable target arity) :=
  (Restores.ofExcept _).bind fun _ => .ite ((Restores.throw _).bind fun _ => .pure _) (.pure _)

/-- A caller that gives everything back, slots of the present frame included. -/
def Caller.GivesBack (call : Caller) : Prop := ∀ next, Run.Restores Allowance.all.still (call next)

section

variable {call : Caller} (calls : call.GivesBack)

include calls

theorem Caller.GivesBack.own (next : PendingCall) : Restores .all (call next) :=
  (calls next).mono (Allowance.still_le _)

namespace Builtin

theorem test_restores (f : FuncItem) (span : Span) (v : Value) :
    Restores Allowance.all.still (test call.invoke f span v) := by
  refine (calls _).bind fun w => ?_
  split
  · exact .pure _
  · exact .throw _

theorem apply_restores (b : Builtin) (args : List Value) (span : Span) :
    Restores Allowance.all.still (b.apply call.invoke args span) := by
  unfold apply
  split
  · exact (Restores.ofExcept _).bind fun f =>
      (Restores.mapM (fun v => calls _) _).bind fun _ => .pure _
  · exact (Restores.ofExcept _).bind fun f =>
      (Restores.filterM (test_restores calls f span) _).bind fun _ => .pure _
  · exact (Restores.ofExcept _).bind fun f => Restores.foldlM (fun _ _ => calls _) _ _
  · exact (Restores.ofExcept _).bind fun _ => .pure _
  · exact (Restores.ofExcept _).bind fun _ => .pure _
  · exact .pure _
  · exact (Restores.ofExcept _).bind fun _ => (Restores.random trivial _).bind fun _ => .pure _
  · exact .throw _
  · exact (Restores.addUpdate trivial _).bind fun _ => .pure _
  · exact .throw _

end Builtin

omit calls

mutual
theorem Expr.evaluate_restores (calls : call.GivesBack) : (e : Expr) → Restores .all (e.evaluate call)
  | .value _ => .pure _
  | .var ref => .get ref.slot
  | .letIn _ slot value body =>
    (Expr.evaluate_restores calls value).bind fun v =>
      (Restores.set slot v trivial).bind fun _ => Expr.evaluate_restores calls body
  | .branch cond yes no _ =>
    (Expr.evaluate_restores calls cond).bind fun _ => (Restores.ofExcept _).bind fun _ =>
      .ite (Expr.evaluate_restores calls yes) (Expr.evaluate_restores calls no)
  | .arith _ lhs rhs _ =>
    (Expr.evaluate_restores calls lhs).bind fun _ => (Expr.evaluate_restores calls rhs).bind fun _ =>
      .ofExcept _
  | .compare _ lhs rhs _ =>
    (Expr.evaluate_restores calls lhs).bind fun _ => (Expr.evaluate_restores calls rhs).bind fun _ =>
      (Restores.ofExcept _).bind fun _ => .pure _
  | .seq items => (evaluateList_restores calls items).bind fun _ => .pure _
  | .focus span => .focus span
  | .treat expr _ _ => (Expr.evaluate_restores calls expr).bind fun _ => .ite (.pure _) (.throw _)
  | .builtin function args span =>
    (evaluateList_restores calls args).bind fun vs =>
      (Builtin.apply_restores calls function vs span).mono (Allowance.still_le _)
  | .error e => .throw e
  | .closure c => (Closure.evaluate_restores calls c).bind fun _ => .pure _
  | .literal _ c => (Closure.evaluate_restores calls c).bind fun _ => .pure _
  | .partialApply site target args =>
    (Expr.evaluate_restores calls target).bind fun _ => (site.callable_restores _ _).bind fun _ =>
      (evaluateList_restores calls args).bind fun _ => (Restores.draw _).bind fun _ => .pure _
  | .call _ args => (evaluateList_restores calls args).bind fun _ => calls.own _
  | .dynamicCall site callee args =>
    (Expr.evaluate_restores calls callee).bind fun _ => (site.callable_restores _ _).bind fun _ =>
      (evaluateList_restores calls args).bind fun _ => calls.own _

theorem evaluateList_restores (calls : call.GivesBack) :
    (es : List Expr) → Restores .all (evaluateList call es)
  | [] => .pure _
  | e :: es =>
    (Expr.evaluate_restores calls e).bind fun _ => (evaluateList_restores calls es).bind fun _ => .pure _

theorem Closure.evaluate_restores (calls : call.GivesBack) : (c : Closure) → Restores .all (c.evaluate call)
  | ⟨_, _, _, _, _, scope, captures, _, _, _⟩ =>
    (evaluateSupplies_restores calls scope captures).bind fun _ => .draw _

theorem evaluateSupplies_restores (calls : call.GivesBack) (scope : Scope) :
    (es : List (VarId × Expr)) → Restores .all (evaluateSupplies call scope es)
  | [] => .pure _
  | (_, e) :: es =>
    (Expr.evaluate_restores calls e).bind fun _ =>
      (evaluateSupplies_restores calls scope es).bind fun _ => .pure _
end

include calls

theorem Expr.evaluateTail_restores : (e : Expr) → Restores .all (e.evaluateTail call)
  | .branch cond yes no _ =>
    (Expr.evaluate_restores calls cond).bind fun _ => (Restores.ofExcept _).bind fun _ =>
      .ite (Expr.evaluateTail_restores yes) (Expr.evaluateTail_restores no)
  | .letIn _ slot bound body =>
    (Expr.evaluate_restores calls bound).bind fun v =>
      (Restores.set slot v trivial).bind fun _ => Expr.evaluateTail_restores body
  | .call site args =>
    .ite ((evaluateList_restores calls args).bind fun _ => .pure _)
      ((Expr.evaluate_restores calls (.call site args)).bind fun _ => .pure _)
  | .dynamicCall site callee args =>
    .ite ((Expr.evaluate_restores calls callee).bind fun _ =>
        (site.callable_restores _ _).bind fun _ =>
          (evaluateList_restores calls args).bind fun _ => .pure _)
      ((Expr.evaluate_restores calls (.dynamicCall site callee args)).bind fun _ => .pure _)
  | .value _ | .var _ | .focus _ | .error _ | .arith _ _ _ _ | .compare _ _ _ _ | .seq _
  | .treat _ _ _ | .builtin _ _ _ | .closure _ | .literal _ _ | .partialApply _ _ _ =>
    (Expr.evaluate_restores calls _).bind fun _ => .pure _

end

namespace Run

theorem bodyOf_restores (target : FuncId) (span : Span) : Restores a (bodyOf target span) := by
  refine Restores.read.bind fun setting => ?_
  split
  · exact .fault _
  · split
    · exact .pure _
    · exact .throw _
    · exact .throw _

section

variable {call : Caller} (calls : call.GivesBack)

include calls

theorem stepItem_restores (f : FuncItem) (args : List Value) (span : Span) :
    Restores Allowance.all.still (stepItem call f args span) := by
  unfold stepItem
  generalize f.code = code
  cases code with
  | builtin b =>
    have rest := (Builtin.apply_restores calls b args span).bind fun v => .pure (Flow.done v)
    exact .ite ((Restores.throw _).bind fun _ => rest) rest
  | closure params captured body scope =>
    have entered := (Restores.forM (fun q : Variable × Value => .set q.1.slot q.2 trivial) captured).bind
      fun _ => (Restores.bindParams f.text span params args).bind fun _ =>
        .withoutFocus (Expr.evaluateTail_restores calls body)
    exact .ite ((Restores.throw _).bind fun _ => .inFrame _ entered) (.inFrame _ entered)

theorem step_restores (next : PendingCall) :
    Restores Allowance.all.still (step call next) := by
  cases next with
  | registered target args span =>
    refine (bodyOf_restores target span).bind fun p => .inFrame _ ?_
    exact (Restores.bindParams _ _ _ _).bind fun _ =>
      .withoutFocus (Expr.evaluateTail_restores calls _)
  | item f args span => exact stepItem_restores calls f args span
  | callback f args span => exact stepItem_restores calls f args span

end

theorem loop_restores (budget : Nat) (next : PendingCall) :
    Restores Allowance.all.still (loop budget next) := by
  induction budget generalizing next with
  | zero => exact .fault _
  | succ budget ih =>
    have calls : Caller.GivesBack fun inner => nested (loop budget inner) :=
      fun inner => (ih inner).nested
    refine Restores.checkInterrupt.bind fun _ => (step_restores calls next).bind fun flow => ?_
    cases flow with
    | done v => exact .pure v
    | call next => exact ih next

theorem call_restores (budget : Nat) : (call budget).GivesBack := fun next =>
  (loop_restores budget next).nested

/-- Whether evaluation ends with a value or with an error, its context is as it was: the stack with
its frames, the depth and the focus. Updates are added behind the old ones. Calls of function items
and applications of built-ins leave the current frame alone as well. -/
theorem evaluation_restores (budget : Nat) (r : RunSetting) (s t : RunState)
    (result : Except QueryError Value) :
    (∀ e, evaluate budget e r s = (.ok result, t) → s.Restored t) ∧
    (∀ f args span, invoke budget f args span r s = (.ok result, t) →
      s.Restored t ∧ t.stack = s.stack) ∧
    (∀ (b : Builtin) args span, b.apply (invoke budget) args span r s = (.ok result, t) →
      s.Restored t ∧ t.stack = s.stack) := by
  have whole : ∀ {act : Run Value}, Restores Allowance.all.still act →
      act r s = (.ok result, t) → s.Restored t ∧ t.stack = s.stack := by
    intro act kept run
    obtain ⟨-, changed, -⟩ := kept r s _ _ run
    exact ⟨(changed.mono (Allowance.still_le _)).restored, changed.stack_eq⟩
  have calls := call_restores budget
  refine ⟨fun e run => ?_, fun f args span => whole (calls _), fun b args span =>
    whole (Builtin.apply_restores calls b args span)⟩
  exact (Expr.evaluate_restores calls e r s _ _ run).2.1.restored

def outputting : FuncItem :=
  let x : Variable := ⟨⟨0⟩, "x", some .integer, .integer, 0, true⟩
  { id := ⟨0⟩
    origin := ⟨0⟩
    name := none
    type := ⟨[.integer], .item, true⟩
    annotations := { updating := true }
    span := .synthetic
    code := .closure [x] [] (.builtin .output [.var ⟨x.id, x.slot, .integer, .synthetic⟩] .synthetic)
      { vars := [x], slots := [true] } }

/-- Writes to a slot, outputs 1, and fails to bind a string in the second call. -/
def outputtingTwice : Expr :=
  .letIn ⟨1⟩ 0 (.value (.int 5)) (.builtin .forEach
    [.seq [.value (.int 1), .value (.str "a")], .value (.func outputting)] .synthetic)

/-- Two frames of a slot each, amid calls. -/
def amid (host : Host) : RunState :=
  { RunState.start {} {} host (some (.int 3)) with
    stack := #[.int 8, .int 9], base := 1, depth := 2, updates := [.int 7] }

/-- How an evaluation is known to fail. -/
structure Failure (e : Expr) (s : RunState) where
  error : QueryError
  updates : List Value
  fails : (evaluate 9 e ⟨{}, ({} : Options)⟩ s).1 = .ok (.error error)
  updated : (evaluate 9 e ⟨{}, ({} : Options)⟩ s).2.updates = updates

def outputtingTwiceFails : Failure outputtingTwice (amid .quiet) where
  error := .cannotPromote "(anonymous-function)#1" "xs:string" .integer "x" .synthetic
  updates := [.int 7, .int 1]
  fails := by cbv
  updated := by cbv

def outputtingTwiceCancelled : Failure outputtingTwice (amid { future := [{ cancelled := true }] }) where
  error := .cancelled
  updates := [.int 7, .int 1]
  fails := by cbv
  updated := by cbv

def outputtingTwiceOverflows :
    Failure outputtingTwice (amid { future := [{ stackUse := 1048577 }] }) where
  error := .stackOverflow 2
  updates := [.int 7, .int 1]
  fails := by cbv
  updated := by cbv

theorem Failure.run {e : Expr} {s : RunState} (failure : Failure e s) :
    ∃ t, evaluate 9 e ⟨{}, ({} : Options)⟩ s = (.ok (.error failure.error), t) ∧
      t.updates = failure.updates :=
  ⟨_, Prod.ext failure.fails rfl, failure.updated⟩

/-- Errors amid the calls of a built-in: of the call itself, of the host that cancels the run, and for
want of room on the native stack. -/
theorem evaluation_restores_outputting :
    (∃ e t, evaluate 9 outputtingTwice ⟨{}, ({} : Options)⟩ (amid .quiet) = (.ok (.error e), t) ∧
      t.updates = [.int 7, .int 1] ∧ (amid .quiet).Restored t) ∧
    (∃ host t, evaluate 9 outputtingTwice ⟨{}, ({} : Options)⟩ (amid host) =
        (.ok (.error .cancelled), t) ∧
      t.updates = [.int 7, .int 1] ∧ (amid host).Restored t) ∧
    ∃ host t, evaluate 9 outputtingTwice ⟨{}, ({} : Options)⟩ (amid host) =
        (.ok (.error (.stackOverflow 2)), t) ∧
      t.updates = [.int 7, .int 1] ∧ (amid host).Restored t := by
  obtain ⟨t, failed, updated⟩ := outputtingTwiceFails.run
  obtain ⟨u, cancelled, updated'⟩ := outputtingTwiceCancelled.run
  obtain ⟨v, full, updated''⟩ := outputtingTwiceOverflows.run
  refine ⟨⟨_, t, failed, updated, ?_⟩, ⟨_, u, cancelled, updated', ?_⟩, _, v, full, updated'', ?_⟩
  · exact (evaluation_restores 9 _ _ _ _).1 _ failed
  · exact (evaluation_restores 9 _ _ _ _).1 _ cancelled
  · exact (evaluation_restores 9 _ _ _ _).1 _ full

end Run

end QueryFunctions
