import QueryFunctions.Proofs.Run.Evaluation

/-! Calls under the law of a run. What a call of a function item may do is not told by the code that
makes it: items draw random numbers unannounced, and callbacks update unannounced. So runs are
compared with runs in which some calls are made in another way, and the law is kept as long as
those calls keep it. -/
namespace QueryFunctions

namespace Run

/-- `loop`, except that the calls that `barred` names are made by `other`. -/
def loopExcept (barred : PendingCall → Bool) (other : PendingCall → Run Value) :
    (budget : Nat) → PendingCall → Run Value
  | 0, _ => fault .budget
  | budget + 1, next =>
    if barred next then other next
    else do
      checkInterrupt
      match ← step (fun inner => nested (loopExcept barred other budget inner)) next with
      | .done v => return v
      | .call next => loopExcept barred other budget next

def callExcept (barred : PendingCall → Bool) (other : PendingCall → Run Value) (budget : Nat) :
    Caller :=
  fun next => nested (loopExcept barred other budget next)

theorem loopExcept_none (other : PendingCall → Run Value) (budget : Nat) :
    loopExcept (fun _ => false) other budget = loop budget := by
  induction budget with
  | zero => rfl
  | succ budget ih =>
    funext next
    simp only [loopExcept, ih, Bool.false_eq_true, if_false]
    rfl

theorem callExcept_none (other : PendingCall → Run Value) (budget : Nat) :
    callExcept (fun _ => false) other budget = call budget := by
  funext next
  simp only [callExcept, call, loopExcept_none]

end Run

namespace Flow

def Meets (d : Standard) (a : Allowance) : Flow → Prop
  | .done v => v.Meets d
  | .call next => next.Meets d a

end Flow

namespace PendingCall

/-- The call may be made without further assumptions on the function that it calls. -/
def Within (d : Standard) (a : Allowance) : PendingCall → Prop
  | .registered _ _ _ => True
  | .item _ _ _ => a.draws
  | .callback f _ _ => a.draws ∧ (d.annotated → f.isUpdating = true → a.updates)

end PendingCall

def Registry.Runs (d : Standard) (r : Registry) : Prop :=
  ∀ id entry body, d.mentioned id → r.find? id = some entry → entry.body = some body →
    body.Meets d true (.ofFunction d id entry.scope)

variable {d : Standard} {a : Allowance} {r : RunSetting} {s : RunState}
  (unmixed : d.annotated → r.options.mixedUpdates = false)

section

variable {call : Caller} (calls : call.Keeps d a r)

include calls

theorem Caller.Keeps.wide : call.Keeps d a.wide r := fun next s hs hnext =>
  Run.keeps_mono a.still_le_wide_still (calls next s hs hnext)

include unmixed

theorem Expr.evaluateTail_keeps : (e : Expr) → (s : RunState) → s.Meets d → e.Meets d true a →
    (runLaw d a).Keeps r s (e.evaluateTail call) fun flow _ => flow.Meets d a
  | .branch cond yes no span, s, hs, he => by
    rw [Expr.Meets] at he
    obtain ⟨hcond, hyes, hno⟩ := he
    refine Law.Keeps.bind (Expr.evaluate_keeps unmixed calls cond s hs hcond) fun v t ht _ _ => ?_
    refine Law.Keeps.bind (Law.Keeps.ofExcept ht) fun b u hu _ _ => ?_
    split
    · exact Expr.evaluateTail_keeps yes u hu hyes
    · exact Expr.evaluateTail_keeps no u hu hno
  | .letIn _ slot bound body, s, hs, he => by
    rw [Expr.Meets] at he
    obtain ⟨allowed, -, hbound, hbody⟩ := he
    refine Law.Keeps.bind (Expr.evaluate_keeps unmixed calls bound s hs hbound) fun v t ht _ hv => ?_
    refine Law.Keeps.bind (Run.set_keeps ht allowed hv) fun _ u hu _ _ => ?_
    exact Expr.evaluateTail_keeps body u hu hbody
  | .call site args, s, hs, he => by
    unfold evaluateTail
    split
    · rw [Expr.Meets] at he
      obtain ⟨mentioned, updates, draws, hargs⟩ := he
      refine Law.Keeps.bind (evaluateList_keeps unmixed calls args s hs hargs) fun vs t ht _ hvs => ?_
      exact Law.Keeps.pure ht ⟨mentioned, fun upd => (updates upd).1, fun drawn => (draws drawn).1, hvs⟩
    · refine Law.Keeps.bind (Expr.evaluate_keeps unmixed calls _ s hs he) fun v t ht _ hv => ?_
      exact Law.Keeps.pure ht hv
  | .dynamicCall site callee args, s, hs, he => by
    unfold evaluateTail
    split
    · rw [Expr.Meets] at he
      obtain ⟨updates, hcallee, hargs⟩ := he
      refine Law.Keeps.bind (Expr.evaluate_keeps unmixed calls callee s hs hcallee)
        fun v t ht _ hv => ?_
      refine Law.Keeps.bind (DynamicSite.callable_keeps ht hv _) fun f u hu _ hf => ?_
      refine Law.Keeps.bind (evaluateList_keeps unmixed calls args u hu hargs) fun vs w hw _ hvs => ?_
      exact Law.Keeps.pure hw ⟨hf.1, fun h upd => updates (hf.2 (unmixed h) ▸ upd), hvs⟩
    · refine Law.Keeps.bind (Expr.evaluate_keeps unmixed calls _ s hs he) fun v t ht _ hv => ?_
      exact Law.Keeps.pure ht hv
  | .value _, s, hs, he | .var _, s, hs, he | .focus _, s, hs, he | .error _, s, hs, he
  | .arith _ _ _ _, s, hs, he | .compare _ _ _ _, s, hs, he | .seq _, s, hs, he
  | .treat _ _ _, s, hs, he | .builtin _ _ _, s, hs, he | .closure _, s, hs, he
  | .literal _ _, s, hs, he | .partialApply _ _ _, s, hs, he => by
    refine Law.Keeps.bind (Expr.evaluate_keeps unmixed calls _ s hs he) fun v t ht _ hv => ?_
    exact Law.Keeps.pure ht hv

end

namespace Run

theorem bodyOf_keeps (hs : s.Meets d) (target : FuncId) (span : Span) :
    (runLaw d a).Keeps r s (bodyOf target span) fun p _ =>
      r.registry.find? target = some p.1 ∧ p.1.body = some p.2 := by
  refine Law.Keeps.bind (Law.Keeps.read hs) fun _ t _ _ same => ?_
  obtain ⟨rfl, rfl⟩ := same
  split
  · exact Law.Keeps.of_fault rfl
  · rename_i entry found
    split
    · rename_i body _ present
      exact Law.Keeps.pure hs ⟨found, present⟩
    · exact Law.Keeps.throw hs
    · exact Law.Keeps.throw hs

section

variable {call : Caller} (calls : call.Keeps d a r)

include unmixed calls

theorem inBody_keeps {body : Expr} (hs : s.Meets d) (hbody : body.Meets d true a.wide)
    (size : Nat) {enter : Run Unit}
    (entered : ∀ t : RunState, t.Meets d → (runLaw d a.wide).Keeps r t enter fun _ _ => True) :
    (runLaw d a).Keeps r s (inFrame size do enter; withoutFocus (body.evaluateTail call))
      fun flow _ => flow.Meets d a := by
  refine inFrame_keeps hs fun t ht => ?_
  refine Law.Keeps.bind (entered t ht) fun _ u hu _ _ => ?_
  exact withoutFocus_keeps hu fun v hv =>
    Expr.evaluateTail_keeps unmixed calls.wide body v hv hbody

variable (strict : d.annotated ∨ a.updates)

include strict

theorem stepItem_keeps {f : FuncItem} (hs : s.Meets d) (hf : f.Meets d) (draws : a.draws)
    (updates : d.annotated → f.isUpdating = true → a.updates) {args : List Value}
    (all : ∀ v ∈ args, v.Meets d) (span : Span) :
    (runLaw d a).Keeps r s (stepItem call f args span) fun flow _ => flow.Meets d a := by
  rw [FuncItem.meets_iff] at hf
  unfold stepItem
  dsimp only
  split
  · refine Law.Keeps.bind ?_ fun _ u _ _ (none : False) => none.elim
    exact Law.Keeps.throw hs
  · split
    · rename_i b code
      rw [code, Code.Meets] at hf
      have allowed : b.flags.upd = true → a.updates := by
        intro upd
        rcases strict with annotated | free
        · exact updates annotated (hf upd).2
        · exact free
      refine Law.Keeps.bind (Builtin.apply_keeps calls b hs all allowed (fun _ => draws) span)
        fun v t ht _ hv => ?_
      exact Law.Keeps.pure ht hv
    · rename_i params captured body scope code
      rw [code, Code.Meets, capturedMeet_iff] at hf
      have allowed : (d.annotated → f.annotations.updating = true) → a.updates := by
        intro upd
        rcases strict with annotated | free
        · exact updates annotated (upd annotated)
        · exact free
      have hbody := Expr.meets_mono (Allowance.ofBody_le_wide allowed draws scope) body hf.2
      have entered : ∀ t : RunState, t.Meets d → (runLaw d a.wide).Keeps r t
          (do captured.forM fun p => set p.1.slot p.2; bindParams f.text span params args)
          fun _ _ => True := by
        intro t ht
        refine Law.Keeps.bind (Law.Keeps.forM (fun p u hu hp => ?_) captured t ht hf.1)
          fun _ u hu _ _ => ?_
        · exact set_keeps hu trivial hp
        · exact bindParams_keeps f.text span (fun _ => trivial) params args u hu all
      have kept := inBody_keeps unmixed calls hs hbody scope.frameSize entered
      simpa only [bind_assoc] using kept

theorem step_keeps {next : PendingCall} (functions : r.registry.Runs d) (hs : s.Meets d)
    (hnext : next.Meets d a) (within : next.Within d a) :
    (runLaw d a).Keeps r s (step call next) fun flow _ => flow.Meets d a := by
  cases next with
  | registered target args span =>
    obtain ⟨mentioned, updates, draws, all⟩ := hnext
    refine Law.Keeps.bind (bodyOf_keeps hs target span) fun p t ht _ found => ?_
    have allowed : (d.annotated → d.isUpdating target = true) → a.updates := by
      intro upd
      rcases strict with annotated | free
      · exact updates (upd annotated)
      · exact free
    have hbody := functions target p.1 p.2 mentioned found.1 found.2
    refine inBody_keeps unmixed calls ht
      (Expr.meets_mono (Allowance.ofFunction_le_wide draws allowed _) _ hbody) _ fun u hu => ?_
    exact bindParams_keeps _ span (fun _ => trivial) _ args u hu all
  | item f args span =>
    exact stepItem_keeps unmixed calls strict hs hnext.1 within hnext.2.1 hnext.2.2 span
  | callback f args span =>
    exact stepItem_keeps unmixed calls strict hs hnext.1 within.1 within.2 hnext.2 span

end

include unmixed

theorem loopExcept_keeps (strict : d.annotated ∨ a.updates)
    (functions : r.registry.Runs d) {barred : PendingCall → Bool} {other : PendingCall → Run Value}
    (within : ∀ next : PendingCall, next.Meets d a → barred next = false → next.Within d a)
    (others : ∀ next s, s.Meets d → next.Meets d a → barred next = true →
      (runLaw d a.still).Keeps r s (other next) fun v _ => v.Meets d)
    (budget : Nat) (next : PendingCall) (s : RunState) (hs : s.Meets d) (hnext : next.Meets d a) :
    (runLaw d a.still).Keeps r s (loopExcept barred other budget next) fun v _ => v.Meets d := by
  induction budget generalizing next s with
  | zero => exact Law.Keeps.of_fault rfl
  | succ budget ih =>
    unfold loopExcept
    split
    · exact others next s hs hnext ‹_›
    · rename_i free
      have calls : Caller.Keeps d a.still r fun inner => nested (loopExcept barred other budget inner) :=
        fun inner t ht hinner => nested_keeps ht fun u hu => ih inner u hu hinner
      refine Law.Keeps.bind (checkInterrupt_keeps hs) fun _ t ht _ _ => ?_
      have step := step_keeps (a := a.still) unmixed calls strict functions ht hnext
        (within next hnext (by simpa using free))
      refine Law.Keeps.bind step fun flow u hu _ hflow => ?_
      cases flow with
      | done v => exact Law.Keeps.pure hu hflow
      | call next => exact ih next u hu hflow

theorem callExcept_keeps (strict : d.annotated ∨ a.updates)
    (functions : r.registry.Runs d) {barred : PendingCall → Bool} {other : PendingCall → Run Value}
    (within : ∀ next : PendingCall, next.Meets d a → barred next = false → next.Within d a)
    (others : ∀ next s, s.Meets d → next.Meets d a → barred next = true →
      (runLaw d a.still).Keeps r s (other next) fun v _ => v.Meets d) (budget : Nat) :
    (callExcept barred other budget).Keeps d a r :=
  fun next _ hs hnext => nested_keeps hs fun t ht =>
    loopExcept_keeps unmixed strict functions within others budget next t ht hnext

theorem call_keeps (functions : r.registry.Runs d) (updates : a.updates) (draws : a.draws)
    (budget : Nat) : (call budget).Keeps d a r := by
  rw [← callExcept_none fun _ => fault .budget]
  refine callExcept_keeps unmixed (.inr updates) functions (fun next _ _ => ?_)
    (fun _ _ _ _ barred => by cases barred) budget
  cases next with
  | registered target args span => trivial
  | item f args span => exact draws
  | callback f args span => exact ⟨draws, fun _ _ => updates⟩

end Run

end QueryFunctions
