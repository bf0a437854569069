import Mathlib
import QueryFunctions.Proofs.Law.Agreement
import QueryFunctions.Proofs.Query.Leniency

/-! The depth limit of a run. Calls are counted when they are made and when they end, so no call is made
deeper than the limit allows, and a larger limit makes a difference only to runs that a smaller one has
cut off. -/
namespace QueryFunctions

def depthLaw (n : Nat) : Law RunState where
  holds s := s.depth = n
  leads _ _ := True
  refl _ := trivial
  trans _ _ := trivial

namespace Run

variable {α β : Type} {n : Nat}

/-- Started at depth `n`, both computations do the same, and end there. -/
def AgreeAt (n : Nat) (act act' : Run α) : Prop :=
  ∀ r s, s.depth = n → (depthLaw n).Agrees r s act act' fun _ _ => True

namespace AgreeAt

theorem same {act : Run α} (restores : Restores .all act) : AgreeAt n act act := by
  intro r s hs
  refine .refl fun result t run => ?_
  obtain ⟨-, kept, -⟩ := restores r s result t run
  exact ⟨kept.depth.trans hs, trivial, fun _ _ => trivial⟩

theorem pure (v : α) : AgreeAt n (Pure.pure v) (Pure.pure v) := same (.pure v)

theorem bind {act act' : Run α} {next next' : α → Run β} (first : AgreeAt n act act')
    (second : ∀ v, AgreeAt n (next v) (next' v)) : AgreeAt n (act >>= next) (act' >>= next') :=
  fun r s hs => (first r s hs).bind fun v t ht _ => second v r t ht

theorem ite {p : Prop} [Decidable p] {yes yes' no no' : Run α} (hyes : AgreeAt n yes yes')
    (hno : AgreeAt n no no') : AgreeAt n (if p then yes else no) (if p then yes' else no') := by
  split
  · exact hyes
  · exact hno

theorem mapM {f f' : α → Run β} (each : ∀ v, AgreeAt n (f v) (f' v)) (vs : List α) :
    AgreeAt n (vs.mapM f) (vs.mapM f') := by
  intro r s hs
  have agrees : (depthLaw n).Agrees r s (vs.mapM f) (vs.mapM f') fun ws _ => ∀ w ∈ ws, True :=
    Law.Agrees.mapM (p := fun _ => True) (fun v t ht _ => each v r t ht) vs hs fun _ _ => trivial
  exact ⟨agrees.kept.mono fun _ _ _ _ _ => trivial, agrees.same⟩

theorem filterM {f f' : α → Run Bool} (each : ∀ v, AgreeAt n (f v) (f' v)) (vs : List α) :
    AgreeAt n (vs.filterM f) (vs.filterM f') := by
  intro r s hs
  have agrees : (depthLaw n).Agrees r s (vs.filterM f) (vs.filterM f') fun ws _ => ∀ w ∈ ws, True :=
    Law.Agrees.filterM (p := fun _ => True) (fun v t ht _ => each v r t ht) vs hs fun _ _ => trivial
  exact ⟨agrees.kept.mono fun _ _ _ _ _ => trivial, agrees.same⟩

theorem foldlM {f f' : β → α → Run β} (each : ∀ w v, AgreeAt n (f w v) (f' w v)) (vs : List α)
    (w : β) : AgreeAt n (vs.foldlM f w) (vs.foldlM f' w) := by
  intro r s hs
  exact Law.Agrees.foldlM (p := fun _ => True) (fun w v t ht _ _ => each w v r t ht) vs hs trivial
    fun _ _ => trivial

theorem inFrame (size : Nat) {act act' : Run α} (h : AgreeAt n act act') :
    AgreeAt n (Run.inFrame size act) (Run.inFrame size act') := fun r s hs =>
  leaving_agrees (inFrame_run size act r s) (inFrame_run size act' r s) (h r (s.pushed size) hs)
    fun _ hu _ => ⟨hu, trivial⟩

theorem withoutFocus {act act' : Run α} (h : AgreeAt n act act') :
    AgreeAt n (Run.withoutFocus act) (Run.withoutFocus act') := fun r s hs =>
  leaving_agrees (withoutFocus_run act r s) (withoutFocus_run act' r s) (h r (s.focused none) hs)
    fun _ hu _ => ⟨hu, trivial⟩

end AgreeAt

end Run

open Run (AgreeAt Restores)

def Caller.AgreeAt (n : Nat) (call call' : Caller) : Prop :=
  ∀ next, Run.AgreeAt n (call next) (call' next)

section

variable {n : Nat} {call call' : Caller}

theorem Builtin.apply_agreeAt (calls : Caller.AgreeAt n call call') (b : Builtin) (args : List Value)
    (span : Span) :
    AgreeAt n (b.apply call.invoke args span) (b.apply call'.invoke args span) := by
  unfold Builtin.apply
  split
  · exact (AgreeAt.same (.ofExcept _)).bind fun f =>
      (AgreeAt.mapM (fun v => calls (.callback f [v] span)) _).bind fun _ => .pure _
  · refine (AgreeAt.same (.ofExcept _)).bind fun f => (AgreeAt.filterM (fun v => ?_) _).bind
      fun _ => .pure _
    refine (calls (.callback f [v] span)).bind fun w => ?_
    split
    · exact .pure _
    · exact .same (.throw _)
  · exact (AgreeAt.same (.ofExcept _)).bind fun f =>
      AgreeAt.foldlM (fun w v => calls (.callback f [w, v] span)) _ _
  · exact .same ((Restores.ofExcept _).bind fun _ => .pure _)
  · exact .same ((Restores.ofExcept _).bind fun _ => .pure _)
  · exact .pure _
  · exact .same ((Restores.ofExcept _).bind fun _ => (Restores.random trivial _).bind fun _ => .pure _)
  · exact .same (.throw _)
  · exact .same ((Restores.addUpdate trivial _).bind fun _ => .pure _)
  · exact .same (.throw _)

mutual
theorem Expr.evaluate_agreeAt (calls : Caller.AgreeAt n call call') :
    (e : Expr) → AgreeAt n (e.evaluate call) (e.evaluate call')
  | .value _ => .pure _
  | .var ref => .same (.get ref.slot)
  | .letIn _ slot value body =>
    (Expr.evaluate_agreeAt calls value).bind fun v =>
      (AgreeAt.same (.set slot v trivial)).bind fun _ => Expr.evaluate_agreeAt calls body
  | .branch cond yes no _ =>
    (Expr.evaluate_agreeAt calls cond).bind fun _ => (AgreeAt.same (.ofExcept _)).bind fun _ =>
      .ite (Expr.evaluate_agreeAt calls yes) (Expr.evaluate_agreeAt calls no)
  | .arith _ lhs rhs _ =>
    (Expr.evaluate_agreeAt calls lhs).bind fun _ => (Expr.evaluate_agreeAt calls rhs).bind fun _ =>
      .same (.ofExcept _)
  | .compare _ lhs rhs _ =>
    (Expr.evaluate_agreeAt calls lhs).bind fun _ => (Expr.evaluate_agreeAt calls rhs).bind fun _ =>
      .same ((Restores.ofExcept _).bind fun _ => .pure _)
  | .seq items => (evaluateList_agreeAt calls items).bind fun _ => .pure _
  | .focus span => .same (.focus span)
  | .treat expr _ _ =>
    (Expr.evaluate_agreeAt calls expr).bind fun _ => .ite (.pure _) (.same (.throw _))
  | .builtin function args span =>
    (evaluateList_agreeAt calls args).bind fun vs => Builtin.apply_agreeAt calls function vs span
  | .error e => .same (.throw e)
  | .closure c => (Closure.evaluate_agreeAt calls c).bind fun _ => .pure _
  | .literal _ c => (Closure.evaluate_agreeAt calls c).bind fun _ => .pure _
  | .partialApply site target args =>
    (Expr.evaluate_agreeAt calls target).bind fun _ => (AgreeAt.same (site.callable_restores _ _)).bind
      fun _ => (evaluateList_agreeAt calls args).bind fun _ =>
        (AgreeAt.same (.draw _)).bind fun _ => .pure _
  | .call _ args => (evaluateList_agreeAt calls args).bind fun _ => calls _
  | .dynamicCall site callee args =>
    (Expr.evaluate_agreeAt calls callee).bind fun _ => (AgreeAt.same (site.callable_restores _ _)).bind
      fun _ => (evaluateList_agreeAt calls args).bind fun _ => calls _

theorem evaluateList_agreeAt (calls : Caller.AgreeAt n call call') :
    (es : List Expr) → AgreeAt n (evaluateList call es) (evaluateList call' es)
  | [] => .pure _
  | e :: es =>
    (Expr.evaluate_agreeAt calls e).bind fun _ => (evaluateList_agreeAt calls es).bind fun _ => .pure _

theorem Closure.evaluate_agreeAt (calls : Caller.AgreeAt n call call') :
    (c : Closure) → AgreeAt n (c.evaluate call) (c.evaluate call')
  | ⟨_, _, _, _, _, scope, captures, _, _, _⟩ =>
    (evaluateSupplies_agreeAt calls scope captures).bind fun _ => .same (.draw _)

theorem evaluateSupplies_agreeAt (calls : Caller.AgreeAt n call call') (scope : Scope) :
    (es : List (VarId × Expr)) → AgreeAt n (evaluateSupplies call scope es)
      (evaluateSupplies call' scope es)
  | [] => .pure _
  | (_, e) :: es =>
    (Expr.evaluate_agreeAt calls e).bind fun _ =>
      (evaluateSupplies_agreeAt calls scope es).bind fun _ => .pure _
end

theorem Expr.evaluateTail_agreeAt (calls : Caller.AgreeAt n call call') :
    (e : Expr) → AgreeAt n (e.evaluateTail call) (e.evaluateTail call')
  | .branch cond yes no _ =>
    (Expr.evaluate_agreeAt calls cond).bind fun _ => (AgreeAt.same (.ofExcept _)).bind fun _ =>
      .ite (Expr.evaluateTail_agreeAt calls yes) (Expr.evaluateTail_agreeAt calls no)
  | .letIn _ slot bound body =>
    (Expr.evaluate_agreeAt calls bound).bind fun v =>
      (AgreeAt.same (.set slot v trivial)).bind fun _ => Expr.evaluateTail_agreeAt calls body
  | .call site args =>
    .ite ((evaluateList_agreeAt calls args).bind fun _ => .pure _)
      ((Expr.evaluate_agreeAt calls (.call site args)).bind fun _ => .pure _)
  | .dynamicCall site callee args =>
    .ite ((Expr.evaluate_agreeAt calls callee).bind fun _ =>
        (AgreeAt.same (site.callable_restores _ _)).bind fun _ =>
          (evaluateList_agreeAt calls args).bind fun _ => .pure _)
      ((Expr.evaluate_agreeAt calls (.dynamicCall site callee args)).bind fun _ => .pure _)
  | .value _ | .var _ | .focus _ | .error _ | .arith _ _ _ _ | .compare _ _ _ _ | .seq _
  | .treat _ _ _ | .builtin _ _ _ | .closure _ | .literal _ _ | .partialApply _ _ _ =>
    (Expr.evaluate_agreeAt calls _).bind fun _ => .pure _

namespace Run

theorem stepItem_agreeAt (calls : Caller.AgreeAt n call call') (f : FuncItem) (args : List Value)
    (span : Span) :
    AgreeAt n (stepItem call f args span) (stepItem call' f args span) := by
  unfold stepItem
  generalize f.code = code
  cases code with
  | builtin b =>
    have rest := (Builtin.apply_agreeAt calls b args span).bind fun v => .pure (Flow.done v)
    exact .ite ((AgreeAt.same (.throw _)).bind fun _ => rest) rest
  | closure params captured body scope =>
    have captures : Restores .all (captured.forM fun q => set q.1.slot q.2) :=
      .forM (fun q => .set q.1.slot q.2 trivial) captured
    have entered := (AgreeAt.same captures).bind fun _ =>
      (AgreeAt.same (.bindParams f.text span params args)).bind fun _ =>
        .withoutFocus (Expr.evaluateTail_agreeAt calls body)
    exact .ite ((AgreeAt.same (.throw _)).bind fun _ => .inFrame _ entered) (.inFrame _ entered)

theorem step_agreeAt (calls : Caller.AgreeAt n call call') (next : PendingCall) :
    AgreeAt n (step call next) (step call' next) := by
  cases next with
  | registered target args span =>
    refine (AgreeAt.same (bodyOf_restores target span)).bind fun p => .inFrame _ ?_
    exact (AgreeAt.same (.bindParams _ _ _ _)).bind fun _ =>
      .withoutFocus (Expr.evaluateTail_agreeAt calls _)
  | item f args span => exact stepItem_agreeAt calls f args span
  | callback f args span => exact stepItem_agreeAt calls f args span

end Run

end

namespace Run

/-- The loop of the innermost of `opened` calls, but with calls left to `other` where that is not the
depth, or more than the limit. -/
def loopWatched (other : Caller) : (opened budget : Nat) → PendingCall → Run Value
  | _, 0, _ => fault .budget
  | opened, budget + 1, next => do
    if (← getThe RunState).depth = opened ∧ opened ≤ (← read).options.maxDepth then
      checkInterrupt
      match ← step (fun inner => nested (loopWatched other (opened + 1) budget inner)) next with
      | .done v => return v
      | .call next => loopWatched other opened budget next
    else other next

/-- Calls that are counted on from `opened` calls. -/
def callWatched (other : Caller) (opened budget : Nat) : Caller :=
  fun next => nested (loopWatched other (opened + 1) budget next)

variable {α : Type} {other : Caller} {opened budget : Nat} {r : RunSetting} {s : RunState}

theorem nested_agreeAt {act act' : Run α}
    (same : ∀ r s, s.depth = opened + 1 → opened + 1 ≤ r.options.maxDepth → act' r s = act r s)
    (restores : Restores .all (nested act)) : AgreeAt opened (nested act) (nested act') := by
  intro r s hs
  refine ⟨(AgreeAt.same restores r s hs).kept, ?_⟩
  rw [nested_run, nested_run]
  cases full : s.overflow? r.options with
  | some e => rfl
  | none =>
    obtain ⟨shallow, -⟩ := RunState.overflow?_eq_none_iff.1 full
    have depth : s.deeper.depth = opened + 1 := congrArg Nat.succ hs
    dsimp only
    rw [same r s.deeper depth (hs ▸ shallow)]

/-- Induction on the budget: a loop that starts at the depth at which it is counted makes all its calls
there, and calls within it are counted one higher. -/
theorem loopWatched_eq (next : PendingCall) (depth : s.depth = opened)
    (shallow : opened ≤ r.options.maxDepth) :
    loopWatched other opened budget next r s = loop budget next r s := by
  induction budget generalizing opened next r s with
  | zero => rfl
  | succ budget ih =>
    have calls : Caller.AgreeAt opened (fun inner => nested (loop budget inner))
        fun inner => nested (loopWatched other (opened + 1) budget inner) := fun inner =>
      nested_agreeAt (fun _ _ depth shallow => ih inner depth shallow)
        ((call_restores budget inner).mono (Allowance.still_le _))
    let turn : Run Flow := do
      checkInterrupt
      step (fun inner => nested (loopWatched other (opened + 1) budget inner)) next
    have turns : AgreeAt opened (iteration budget next) turn :=
      (AgreeAt.same .checkInterrupt).bind fun _ => step_agreeAt calls next
    have watched : loopWatched other opened (budget + 1) next r s = (turn >>= fun flow =>
        match flow with
        | .done v => return v
        | .call next => loopWatched other opened budget next) r s := by
      have run : loopWatched other opened (budget + 1) next r s =
          (if s.depth = opened ∧ opened ≤ r.options.maxDepth then do
            checkInterrupt
            match ← step (fun inner => nested (loopWatched other (opened + 1) budget inner)) next with
            | .done v => return v
            | .call next => loopWatched other opened budget next
          else other next) r s := rfl
      rw [run, if_pos ⟨depth, shallow⟩]
      exact congrFun (congrFun (bind_assoc _ _ _).symm r) s
    obtain ⟨kept, same⟩ := turns r s depth
    rw [watched, loop_succ, Computation.run_bind, Computation.run_bind, same]
    rcases ran : iteration budget next r s with ⟨f | e | v | again, t⟩
    · rfl
    · rfl
    · rfl
    · obtain ⟨there, -, -⟩ := kept _ _ ran
      exact ih again there shallow

theorem callWatched_agreeAt : Caller.AgreeAt opened (call budget) (callWatched other opened budget) :=
  fun next => nested_agreeAt (fun _ _ depth shallow => loopWatched_eq next depth shallow)
    ((call_restores budget next).mono (Allowance.still_le _))

end Run

namespace Query

def withMaxDepth (q : Query) (maxDepth : Nat) : Query := q.under { q.options with maxDepth }

/-- The depth limit only cuts runs off. The depth is the number of calls that are open, and that is
never more than the limit: whatever were done where either is not so, nothing would be different; and
each call gives its depth back, however it ends. A larger limit has no part in compilation, and what a
unit answers with the smaller one, unless it overflows, it answers with the larger one. -/
theorem depth_limit (q : Query) (d d' : Nat) (least : 1 ≤ d) (le : d ≤ d') (budget : Nat) :
    (∀ (other : Caller) (r : RunSetting) (s : RunState),
      (∀ e : Expr, e.evaluate (Run.callWatched other s.depth budget) r s =
        Run.evaluate budget e r s) ∧
      ∀ next, Run.callWatched other s.depth budget next r s = Run.call budget next r s) ∧
    (∀ (next : PendingCall) (r : RunSetting) (s t : RunState) (result : Except QueryError Value),
      Run.call budget next r s = (.ok result, t) → t.depth = s.depth) ∧
    (∀ (result : Except QueryError Unit) (p : Query),
      (q.withMaxDepth d).compile budget = (.ok result, p) →
      (q.withMaxDepth d').compile budget = (.ok result, p.withMaxDepth d')) ∧
    ∀ (host : Host) (focus : Option Value) (result : Except QueryError Answer),
      ((q.withMaxDepth d).execute budget host focus).1 = .ok result →
      (∀ e, result = .error e → ¬e.IsOverflow) →
      ∃ result', ((q.withMaxDepth d').execute budget host focus).1 = .ok result' ∧
        Ends Answer.Twin result result' := by
  have looser : (q.withMaxDepth d).options.Looser { q.options with maxDepth := d' } :=
    .deeper q.options le
  have valid : (q.withMaxDepth d).options.maxDepth = 0 →
      ({ q.options with maxDepth := d' } : Options).maxDepth = 0 := fun zero =>
    absurd (zero : d = 0) (Nat.one_le_iff_ne_zero.1 least)
  refine ⟨fun other r s => ⟨fun e => (e.evaluate_agreeAt Run.callWatched_agreeAt r s rfl).same,
      fun next => (Run.callWatched_agreeAt next r s rfl).same⟩, fun next r s t result run => ?_,
      fun result p run => ?_,
    fun host focus result run free => ?_⟩
  · obtain ⟨-, kept, -⟩ := Run.call_restores budget next r s _ _ run
    exact kept.depth
  · have options : p.options = (q.withMaxDepth d).options := by
      have kept := (compile_advances (q.withMaxDepth d) budget).options
      rwa [run] at kept
    rcases compile_under looser valid budget with ⟨e, -, differs, -⟩ | same
    · exact absurd rfl differs
    · rw [run] at same
      have deeper : p.withMaxDepth d' = p.under { q.options with maxDepth := d' } := by
        rw [withMaxDepth, options]
        rfl
      rw [deeper]
      exact same
  · refine execute_under looser valid run fun e failed => ?_
    rintro (⟨differs, -⟩ | ⟨-, overflow⟩)
    · exact differs rfl
    · exact free e failed overflow

/-- A function that adds up the numbers to its argument, each call inside of the one before. -/
def summing : Sample {} where
  requests :=
    [.declare { name := some "f", params := [("n", none)] }
        (.branch (.var "n")
          (.arith .add (.var "n") (.call "f" [.arith .sub (.var "n") (.datum (.int 1))]))
          (.datum (.int 0))),
      .main (.call "f" [.datum (.int 1)])]
  made := by cbv
  compiled := by cbv

def summingCompiled : Query := ((summing.query.withMaxDepth 2).compile 9).2

theorem summing_compiles : ((summing.query.withMaxDepth 2).compile 9).1 = .ok (.ok ()) := by cbv

set_option maxRecDepth 3000 in
theorem summing_answer : ((summing.query.withMaxDepth 2).execute 9 .quiet none).1 =
    .ok (.ok ⟨.int 1, []⟩) := by cbv

set_option maxRecDepth 3000 in
/-- One call is not enough. -/
example : ((summing.query.withMaxDepth 1).execute 9 .quiet none).1 =
    .ok (.error (.stackOverflow 1)) := by cbv

def summingCall : PendingCall := .registered ⟨0⟩ [.int 1] .synthetic

set_option maxRecDepth 3000 in
theorem summingCall_ends : (Run.call 9 summingCall summingCompiled.setting
    (.start summingCompiled.supply summingCompiled.options .quiet none)).1 = .ok (.ok (.int 1)) := by cbv

theorem depth_limit_summing :
    (Run.callWatched (fun _ => Run.fault .budget) 0 9 summingCall summingCompiled.setting
        (.start summingCompiled.supply summingCompiled.options .quiet none)).1 = .ok (.ok (.int 1)) ∧
      (Run.call 9 summingCall summingCompiled.setting
        (.start summingCompiled.supply summingCompiled.options .quiet none)).2.depth = 0 ∧
      (summing.query.withMaxDepth 1024).compile 9 =
        (.ok (.ok ()), summingCompiled.withMaxDepth 1024) ∧
      ((summing.query.withMaxDepth 1024).execute 9 .quiet none).1 = .ok (.ok ⟨.int 1, []⟩) := by
  obtain ⟨watched, depth, compilation, execution⟩ :=
    depth_limit summing.query 2 1024 (by decide) (by decide) 9
  obtain ⟨_, run, ends⟩ := execution .quiet none _ summing_answer nofun
  cases eq_of_ends_ints 1 [] ends
  refine ⟨?_, depth _ _ _ _ _ (eq_of_fst_eq summingCall_ends),
    compilation _ _ (eq_of_fst_eq summing_compiles), run⟩
  have same := (watched (fun _ => Run.fault .budget) summingCompiled.setting
    (.start summingCompiled.supply summingCompiled.options .quiet none)).2 summingCall
  exact (congrArg Prod.fst same).trans summingCall_ends

end Query

end QueryFunctions
