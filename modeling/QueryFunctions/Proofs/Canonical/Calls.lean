import QueryFunctions.Proofs.Canonical.Evaluation
import QueryFunctions.Proofs.Canonical.Simplify

/-! Calls with canonical values. A call binds captured values and arguments in a frame of empty slots, all
of which are canonical, so a body is evaluated in a canonical state. Calls that are vetted, with another
caller in store for those that carry anything else, are made no differently. -/
namespace QueryFunctions

def Flow.Canonical : Flow → Prop
  | .done v => v.Canonical
  | .call next => next.Canonical

namespace Run

open Classical in
/-- The loop, but with calls and results left to `other` unless they are canonical and so is the state. -/
noncomputable def loopVetted (other : Caller) : (budget : Nat) → PendingCall → Run Value
  | 0, _ => fault .budget
  | budget + 1, next => do
    if (← getThe RunState).Canonical ∧ next.Canonical then
      checkInterrupt
      match ← step (fun inner => nested (loopVetted other budget inner)) next with
      | .done v =>
        if (← getThe RunState).Canonical ∧ v.Canonical then return v else other next
      | .call next => loopVetted other budget next
    else other next

noncomputable def callVetted (other : Caller) (budget : Nat) : Caller :=
  fun next => nested (loopVetted other budget next)

end Run

variable {r : RunSetting} {s : RunState} {α : Type}

section

variable {call call' : Caller} (calls : Caller.Refines r call call')

include calls

theorem Expr.evaluateTail_refines : (e : Expr) → (s : RunState) → s.Canonical → e.Canonical →
    Run.Refines r s (e.evaluateTail call) (e.evaluateTail call') Flow.Canonical
  | .branch cond yes no span, s, hs, he => by
    refine (cond.evaluate_refines calls s hs (he.part (by simp [parts]))).bind fun v t ht _ => ?_
    refine (Law.Agrees.ofExcept ht).bind fun b u hu _ => ?_
    split
    · exact yes.evaluateTail_refines u hu (he.part (by simp [parts]))
    · exact no.evaluateTail_refines u hu (he.part (by simp [parts]))
  | .letIn _ slot bound body, s, hs, he => by
    refine (bound.evaluate_refines calls s hs (he.part (by simp [parts]))).bind fun v t ht hv => ?_
    refine (Run.set_refines ht slot hv).bind fun _ u hu _ => ?_
    exact body.evaluateTail_refines u hu (he.part (by simp [parts]))
  | .call site args, s, hs, he => by
    unfold evaluateTail
    split
    · refine (evaluateList_refines calls args s hs fun e mem => he.part mem).bind fun vs t ht hvs => ?_
      exact .pure ht hvs
    · exact ((Expr.call site args).evaluate_refines calls s hs he).bind fun v t ht hv => .pure ht hv
  | .dynamicCall site callee args, s, hs, he => by
    unfold evaluateTail
    split
    · refine (callee.evaluate_refines calls s hs (he.part (by simp [parts]))).bind fun v t ht hv => ?_
      refine (DynamicSite.callable_refines ht hv _).bind fun f u hu hf => ?_
      refine (evaluateList_refines calls args u hu fun e mem => he.part (by simp [parts, mem])).bind
        fun vs w hw hvs => ?_
      exact .pure hw ⟨hf, hvs⟩
    · exact ((Expr.dynamicCall site callee args).evaluate_refines calls s hs he).bind
        fun v t ht hv => .pure ht hv
  | .value _, s, hs, he | .var _, s, hs, he | .focus _, s, hs, he | .error _, s, hs, he
  | .arith _ _ _ _, s, hs, he | .compare _ _ _ _, s, hs, he | .seq _, s, hs, he
  | .treat _ _ _, s, hs, he | .builtin _ _ _, s, hs, he | .closure _, s, hs, he
  | .literal _ _, s, hs, he | .partialApply _ _ _, s, hs, he =>
    (Expr.evaluate_refines calls _ s hs he).bind fun _ _ ht hv => .pure ht hv

end

namespace RunState.Canonical

theorem pushed (hs : s.Canonical) (size : Nat) : (s.pushed size).Canonical := by
  refine ⟨fun v hv => ?_, hs.focus, hs.updates⟩
  rcases Array.mem_append.1 hv with old | new
  · exact hs.stack v old
  · rw [Array.eq_of_mem_replicate new]
    exact Value.canonical_empty

theorem popped (hs : s.Canonical) (base : Nat) : (s.popped base).Canonical := by
  refine ⟨fun v hv => ?_, hs.focus, hs.updates⟩
  obtain ⟨i, lt, rfl⟩ := Array.mem_iff_getElem.1 hv
  simp only [RunState.popped, Array.getElem_shrink]
  exact hs.stack _ (Array.getElem_mem _)

end RunState.Canonical

namespace Run

theorem inFrame_refines {act act' : Run α} {post : α → Prop} {size : Nat}
    (agrees : Refines r (s.pushed size) act act' post) :
    Refines r s (inFrame size act) (inFrame size act') post :=
  leaving_agrees (inFrame_run size act r s) (inFrame_run size act' r s) agrees
    fun _ hu _ => ⟨hu.popped _, trivial⟩

theorem withoutFocus_refines {act act' : Run α} {post : α → Prop} (hs : s.Canonical)
    (agrees : ∀ t : RunState, t.Canonical → Refines r t act act' post) :
    Refines r s (withoutFocus act) (withoutFocus act') post :=
  leaving_agrees (withoutFocus_run act r s) (withoutFocus_run act' r s)
    (agrees (s.focused none) ⟨hs.stack, nofun, hs.updates⟩)
    fun _ hu _ => ⟨⟨hu.stack, hs.focus, hu.updates⟩, trivial⟩

theorem nested_refines {act act' : Run α} {post : α → Prop} (hs : s.Canonical)
    (agrees : ∀ t : RunState, t.Canonical → Refines r t act act' post) :
    Refines r s (nested act) (nested act') post :=
  nested_agrees hs (agrees s.deeper ⟨hs.stack, hs.focus, hs.updates⟩)
    fun _ hu _ => ⟨⟨hu.stack, hu.focus, hu.updates⟩, trivial⟩

theorem bindParams_refines (function : String) (span : Span) :
    ∀ (params : List Variable) (args : List Value) (s : RunState), s.Canonical →
      (∀ v ∈ args, v.Canonical) →
      Refines r s (bindParams function span params args) (bindParams function span params args)
        fun _ => True
  | [], _, _, hs, _ => .pure hs trivial
  | _ :: _, [], _, hs, _ => .pure hs trivial
  | p :: ps, v :: vs, s, hs, all => by
    have rest : ∀ t : RunState, t.Canonical →
        Refines r t (do set p.slot v; bindParams function span ps vs)
          (do set p.slot v; bindParams function span ps vs) fun _ => True := by
      intro t ht
      refine (set_refines ht p.slot (all v (by simp))).bind fun _ u hu _ => ?_
      exact bindParams_refines function span ps vs u hu fun w hw => all w (by simp [hw])
    unfold bindParams
    split
    · split
      · exact refuse_refines hs
      · exact rest s hs
    · exact rest s hs

theorem bindCaptured_refines (captured : List (Variable × Value)) (all : ∀ q ∈ captured, q.2.Canonical)
    (s : RunState) (hs : s.Canonical) :
    Refines r s (captured.forM fun q => set q.1.slot q.2) (captured.forM fun q => set q.1.slot q.2)
      fun _ => True := by
  induction captured generalizing s with
  | nil => exact .pure hs trivial
  | cons q captured ih =>
    refine (set_refines hs q.1.slot (all q (by simp))).bind fun _ t ht _ => ?_
    exact ih (fun x mem => all x (by simp [mem])) t ht

section

variable {call call' : Caller} (calls : Caller.Refines r call call')

include calls

theorem inBody_refines {body : Expr} (hs : s.Canonical) (hbody : body.Canonical) (size : Nat)
    {enter : Run Unit} (entered : ∀ t : RunState, t.Canonical → Refines r t enter enter fun _ => True) :
    Refines r s (inFrame size do enter; withoutFocus (body.evaluateTail call))
      (inFrame size do enter; withoutFocus (body.evaluateTail call')) Flow.Canonical :=
  inFrame_refines <| (entered _ (hs.pushed size)).bind fun _ _ ht _ =>
    withoutFocus_refines ht fun u hu => body.evaluateTail_refines calls u hu hbody

theorem stepItem_refines {f : FuncItem} (hs : s.Canonical) (hf : f.Canonical) {args : List Value}
    (all : ∀ v ∈ args, v.Canonical) (span : Span) :
    Refines r s (stepItem call f args span) (stepItem call' f args span) Flow.Canonical := by
  unfold stepItem
  dsimp only
  split
  · exact Law.Agrees.bind (m := fun _ _ => False) (.throw hs) fun _ _ _ none => none.elim
  · split
    · rename_i b _
      exact (b.apply_refines calls hs all span).bind fun v t ht hv => .pure ht hv
    · rename_i params captured body scope code
      obtain ⟨hcaptured, hbody⟩ := hf _ _ _ _ code
      have entered : ∀ t : RunState, t.Canonical → Refines r t
          (do captured.forM fun q => set q.1.slot q.2; bindParams f.text span params args)
          (do captured.forM fun q => set q.1.slot q.2; bindParams f.text span params args)
          fun _ => True := fun t ht =>
        (bindCaptured_refines captured hcaptured t ht).bind fun _ u hu _ =>
          bindParams_refines f.text span params args u hu all
      have refines := inBody_refines calls hs hbody scope.frameSize entered
      simpa only [bind_assoc] using refines

variable (functions : r.registry.Canonical)

include functions

theorem step_refines {next : PendingCall} (hs : s.Canonical) (hnext : next.Canonical) :
    Refines r s (step call next) (step call' next) Flow.Canonical := by
  cases next with
  | registered target args span =>
    have bodies : Refines r s (bodyOf target span) (bodyOf target span) fun p => p.2.Canonical := by
      refine .refl (Law.Keeps.bind (Law.Keeps.read hs) fun _ t _ _ same => ?_)
      obtain ⟨rfl, rfl⟩ := same
      split
      · exact .of_fault rfl
      · rename_i entry found
        split
        · rename_i body _ present
          exact .pure hs (functions target entry found _ present)
        · exact .throw hs
        · exact .throw hs
    exact bodies.bind fun p t ht hbody => inBody_refines calls ht hbody _ fun u hu =>
      bindParams_refines _ span _ args u hu hnext
  | item f args span => exact stepItem_refines calls hs hnext.1 hnext.2 span
  | callback f args span => exact stepItem_refines calls hs hnext.1 hnext.2 span

end

theorem checkInterrupt_refines (hs : s.Canonical) :
    Refines r s checkInterrupt checkInterrupt fun _ => True := by
  have now : Refines r s nextMoment nextMoment fun _ => True :=
    .refl (.of_eq rfl ⟨hs.stack, hs.focus, hs.updates⟩ trivial trivial)
  refine now.bind fun _ t ht _ => ?_
  split
  · exact .throw ht
  · exact .pure ht trivial

open Classical in
theorem loopVetted_refines (functions : r.registry.Canonical) (other : Caller) (budget : Nat)
    {next : PendingCall} (hs : s.Canonical) (hnext : next.Canonical) :
    Refines r s (loop budget next) (loopVetted other budget next) Value.Canonical := by
  induction budget generalizing s next with
  | zero => exact .refl (.of_fault rfl)
  | succ budget ih =>
    have calls : Caller.Refines r (fun inner => nested (loop budget inner))
        fun inner => nested (loopVetted other budget inner) :=
      fun inner t ht hinner => nested_refines ht fun u hu => ih hu hinner
    have round : Refines r s (loop (budget + 1) next) (do
        checkInterrupt
        match ← step (fun inner => nested (loopVetted other budget inner)) next with
        | .done v =>
          if (← getThe RunState).Canonical ∧ v.Canonical then return v else other next
        | .call next => loopVetted other budget next) Value.Canonical := by
      refine (checkInterrupt_refines hs).bind fun _ t ht _ => ?_
      refine (step_refines calls functions ht hnext).bind fun flow u hu hflow => ?_
      cases flow with
      | done v =>
        refine ⟨.pure hu hflow, ?_⟩
        change (if u.Canonical ∧ v.Canonical then _ else _ : Run Value) r u = _
        rw [if_pos ⟨hu, hflow⟩]
      | call next => exact ih hu hflow
    refine ⟨round.kept, ?_⟩
    rw [← round.same, loopVetted, Computation.run_bind]
    change (if s.Canonical ∧ next.Canonical then _ else _ : Run Value) r s = _
    rw [if_pos ⟨hs, hnext⟩]

theorem callVetted_refines (functions : r.registry.Canonical) (other : Caller) (budget : Nat) :
    Caller.Refines r (call budget) (callVetted other budget) :=
  fun _ _ hs hnext => nested_refines hs fun _ ht => loopVetted_refines functions other budget ht hnext

end Run

end QueryFunctions
