import QueryFunctions.Compile.Folding
import QueryFunctions.Proofs.CallFree.Quiet

/-! Local simplifications of code without calls. What they make is code without calls again, is no larger,
and refines what it is made of. -/
namespace QueryFunctions

namespace Expr

/-- Code without calls that refines what it is made of, by a table, and is not larger. -/
structure Rewritten (layout live : Live) (table : Table) (e e' : Expr) : Prop where
  callFree : e'.CallFree layout live
  size : e'.size ≤ e.size
  refined : e.Refined table e'

namespace Rewritten

variable {layout live : Live} {table : Table} {e e' e'' cond cond' yes yes' no no' lhs lhs' rhs rhs' : Expr}
  {es es' : List Expr} {id : VarId} {slot : Nat}

theorem trans (first : Rewritten layout live table e e') (second : Rewritten layout live live.table e' e'')
    (kept : ∀ p ∈ table, ∀ slot, p.2 = .cell slot → (slot, .cell slot) ∈ live.table) :
    Rewritten layout live table e e'' :=
  ⟨second.callFree, Nat.le_trans second.size first.size,
    first.refined.trans second.refined live.table_same kept⟩

theorem letIn (known : (id, slot) ∈ layout) (fresh : ∀ p ∈ live, p.1 ≠ id ∧ p.2 ≠ slot)
    (apart : ∀ p ∈ table, p.1 ≠ slot ∧ p.2 ≠ .cell slot) (bound : Rewritten layout live table lhs lhs')
    (body : Rewritten layout ((id, slot) :: live) ((slot, .cell slot) :: table) rhs rhs') :
    Rewritten layout live table (.letIn id slot lhs rhs) (.letIn id slot lhs' rhs') :=
  ⟨.letIn known fresh bound.callFree body.callFree, Nat.succ_le_succ (Nat.add_le_add bound.size body.size),
    .letIn bound.refined apart body.refined⟩

theorem branch (span : Span) (condition : Rewritten layout live table cond cond')
    (positive : Rewritten layout live table yes yes') (negative : Rewritten layout live table no no') :
    Rewritten layout live table (.branch cond yes no span) (.branch cond' yes' no' span) :=
  ⟨.branch condition.callFree positive.callFree negative.callFree,
    Nat.succ_le_succ (Nat.add_le_add (Nat.add_le_add condition.size positive.size) negative.size),
    .branch span condition.refined positive.refined negative.refined⟩

theorem arith (op : ArithOp) (span : Span) (left : Rewritten layout live table lhs lhs')
    (right : Rewritten layout live table rhs rhs') :
    Rewritten layout live table (.arith op lhs rhs span) (.arith op lhs' rhs' span) :=
  ⟨.arith left.callFree right.callFree, Nat.succ_le_succ (Nat.add_le_add left.size right.size),
    .arith op span left.refined right.refined⟩

theorem compare (op : CompareOp) (span : Span) (left : Rewritten layout live table lhs lhs')
    (right : Rewritten layout live table rhs rhs') :
    Rewritten layout live table (.compare op lhs rhs span) (.compare op lhs' rhs' span) :=
  ⟨.compare left.callFree right.callFree, Nat.succ_le_succ (Nat.add_le_add left.size right.size),
    .compare op span left.refined right.refined⟩

theorem treat (type : SeqType) (span : Span) (h : Rewritten layout live table e e') :
    Rewritten layout live table (.treat e type span) (.treat e' type span) :=
  ⟨.treat h.callFree, Nat.succ_le_succ h.size, .treat type span h.refined⟩

theorem list_callFree (all : List.Forall₂ (Rewritten layout live table) es es') :
    ∀ e' ∈ es', e'.CallFree layout live := by
  induction all with
  | nil => exact fun _ mem => absurd mem List.not_mem_nil
  | cons head _ ih => exact List.forall_mem_cons.2 ⟨head.callFree, ih⟩

theorem list_size (all : List.Forall₂ (Rewritten layout live table) es es') :
    listSize es' ≤ listSize es := by
  induction all with
  | nil => exact Nat.le_refl _
  | cons head _ ih => exact Nat.add_le_add head.size ih

theorem list_refined (all : List.Forall₂ (Rewritten layout live table) es es') :
    List.Forall₂ (Refined table) es es' := all.imp fun _ _ h => h.refined

theorem seq (all : List.Forall₂ (Rewritten layout live table) es es') :
    Rewritten layout live table (.seq es) (.seq es') :=
  ⟨.seq (list_callFree all), Nat.succ_le_succ (list_size all), .seq (list_refined all)⟩

theorem builtin {function : Builtin} (calls : function.callsBack = false) (span : Span)
    (all : List.Forall₂ (Rewritten layout live table) es es') :
    Rewritten layout live table (.builtin function es span) (.builtin function es' span) :=
  ⟨.builtin calls (list_callFree all), Nat.succ_le_succ (list_size all),
    .builtin calls span (list_refined all)⟩

end Rewritten

/-- Code without calls that may be put for other such code. -/
abbrev Improved (layout live : Live) : Expr → Expr → Prop := Rewritten layout live live.table

variable {layout live : Live} {e e' cond yes no lhs rhs bound body : Expr} {es : List Expr}

theorem Improved.refl (h : e.CallFree layout live) : Improved layout live e e :=
  ⟨h, Nat.le_refl _, h.refined_self⟩

theorem Improved.value {v : Value} (evaluated : ∀ (call : Caller) r s w t,
    e.evaluate call r s = (.ok (.ok w), t) → w = v ∧ t = s) : Improved layout live e (.value v) := by
  refine ⟨.value, e.size_pos, .of_run (.value v) fun call r s w t run => ?_⟩
  obtain ⟨rfl, rfl⟩ := evaluated call r s w t run
  rfl

theorem Improved.error {error : QueryError} (evaluated : ∀ (call : Caller) r s w t,
    e.evaluate call r s ≠ (.ok (.ok w), t)) : Improved layout live e (.error error) := by
  exact ⟨.error, e.size_pos,
    .of_values fun call call' r s t v u _ run => absurd run (evaluated call r s v u)⟩

theorem Improved.ofResult {result : Except QueryError Value} (evaluated : ∀ (call : Caller) r s w t,
    e.evaluate call r s = (.ok (.ok w), t) → result = .ok w ∧ t = s) :
    Improved layout live e (Expr.ofResult result) := by
  cases result with
  | ok v =>
    refine .value fun call r s w t run => ?_
    obtain ⟨same, rest⟩ := evaluated call r s w t run
    cases same
    exact ⟨rfl, rest⟩
  | error error =>
    refine .error fun call r s w t run => ?_
    obtain ⟨⟨⟩, -⟩ := evaluated call r s w t run

theorem CallFree.drop_let {id : VarId} {slot : Nat} (h : (Expr.letIn id slot bound body).CallFree layout live)
    (unused : body.references id = false) (upd : bound.has .upd = false) (ndt : bound.has .ndt = false) :
    Improved layout live (.letIn id slot bound body) body := by
  cases h with
  | letIn known fresh hbound hbody =>
    have own := hbody.without ⟨slot, List.mem_cons_self⟩ unused
    rw [Live.without_self fun p mem => (fresh p mem).1] at own
    refine ⟨own, by simp only [Expr.size]; omega, .of_values fun call call' r s t v u mirrors run => ?_⟩
    obtain ⟨w, s₁, first, rest⟩ := Computation.of_bind_ok run
    obtain ⟨_, s₂, second, third⟩ := Computation.of_bind_ok rest
    obtain ⟨inside, rfl⟩ := Run.set_ok_iff.1 second
    obtain ⟨-, changed, -⟩ := hbound.keeps_quiet upd ndt call s _ _ first
    have same : s₁.Mirrors live.table t := live.quiet.trans mirrors changed
    have written := same.set_left (a := .value w)
      (fun q mem => ((Table.Within.of_live live).fresh fresh q mem).1) inside rfl
    exact own.refined_self.values call call' (written.mono fun _ mem => List.mem_cons_of_mem _ mem) third

theorem CallFree.foldBranch {span : Span} (h : (Expr.branch cond yes no span).CallFree layout live) :
    Improved layout live (.branch cond yes no span) (Expr.foldBranch cond yes no span) := by
  unfold Expr.foldBranch
  split
  · rename_i v
    -- The condition has no effects, so one branch is all that is run.
    have chosen {b : Bool} (holds : v.ebv span = .ok b) (call : Caller) (r : RunSetting) (s : RunState) :
        (Expr.branch (.value v) yes no span).evaluate call r s =
          (if b then yes.evaluate call else no.evaluate call) r s := by
      change ((ofExcept (v.ebv span) : Run Bool) >>= fun b => _) r s = _
      rw [holds]
      cases b <;> rfl
    cases h with
    | branch _ hyes hno =>
      split
      · rename_i holds
        refine ⟨hyes, by simp only [Expr.size]; omega, .of_run hyes.refined_self fun call r s w t run => ?_⟩
        rwa [chosen holds, if_pos rfl] at run
      · rename_i fails
        refine ⟨hno, by simp only [Expr.size]; omega, .of_run hno.refined_self fun call r s w t run => ?_⟩
        rwa [chosen fails, if_neg (by decide)] at run
      · exact .refl (.branch .value hyes hno)
  · exact .refl h

theorem eq_value_of_value? {v : Value} (constant : e.value? = some v) : e = .value v := by
  cases e <;> cases constant
  rfl

theorem CallFree.foldArith {op : ArithOp} {span : Span}
    (h : (Expr.arith op lhs rhs span).CallFree layout live) :
    Improved layout live (.arith op lhs rhs span) (Expr.foldArith op lhs rhs span) := by
  unfold Expr.foldArith
  split
  · rename_i l r left right
    rw [eq_value_of_value? left, eq_value_of_value? right]
    refine .ofResult fun call setting s w t run => ?_
    change (ofExcept (op.apply l r span) : Run Value) setting s = _ at run
    cases result : op.apply l r span <;> rw [result] at run <;> cases run
    exact ⟨rfl, rfl⟩
  · exact .refl h

theorem CallFree.foldCompare {op : CompareOp} {span : Span}
    (h : (Expr.compare op lhs rhs span).CallFree layout live) :
    Improved layout live (.compare op lhs rhs span) (Expr.foldCompare op lhs rhs span) := by
  unfold Expr.foldCompare
  split
  · rename_i l r left right
    rw [eq_value_of_value? left, eq_value_of_value? right]
    refine .ofResult fun call setting s w t run => ?_
    change ((ofExcept (op.apply l r span) : Run Bool) >>= fun b => pure (Value.bool b)) setting s = _ at run
    cases result : op.apply l r span <;> rw [result] at run <;> cases run
    exact ⟨rfl, rfl⟩
  · exact .refl h

theorem evaluateList_values {vs : List Value} (constant : values? es = some vs) (call : Caller)
    (r : RunSetting) (s : RunState) : evaluateList call es r s = (.ok (.ok vs), s) := by
  unfold values? at constant
  induction es generalizing vs with
  | nil =>
    cases constant
    rfl
  | cons e es ih =>
    rw [List.mapM_cons] at constant
    obtain ⟨v, head, tail⟩ := Option.bind_eq_some_iff.1 constant
    obtain ⟨ws, rest, last⟩ := Option.bind_eq_some_iff.1 tail
    cases last
    rw [eq_value_of_value? head]
    change (evaluateList call es >>= fun ws => _) r s = _
    rw [Computation.run_bind, ih rest]
    rfl

theorem CallFree.foldSeq (h : (Expr.seq es).CallFree layout live) :
    Improved layout live (.seq es) (Expr.foldSeq es) := by
  unfold Expr.foldSeq
  split
  · rename_i vs constant
    refine .value fun call r s w t run => ?_
    change (evaluateList call es >>= fun vs => pure (Value.ofItems vs)) r s = _ at run
    rw [Computation.run_bind, evaluateList_values constant] at run
    cases run
    exact ⟨rfl, rfl⟩
  · exact .refl h

theorem CallFree.foldTreat {type : SeqType} {span : Span}
    (h : (Expr.treat e type span).CallFree layout live) :
    Improved layout live (.treat e type span) (Expr.foldTreat e type span) := by
  have inner : e.CallFree layout live := by
    cases h with
    | treat h => exact h
  -- A check that is passed makes no difference, whatever was known statically.
  have passed (call : Caller) (r : RunSetting) (s : RunState) (w : Value) (t : RunState)
      (run : (Expr.treat e type span).evaluate call r s = (.ok (.ok w), t)) :
      e.evaluate call r s = (.ok (.ok w), t) ∧ type.accepts w = true := by
    obtain ⟨v, u, first, rest⟩ := Computation.of_bind_ok run
    split at rest
    · rename_i accepted
      cases rest
      exact ⟨first, accepted⟩
    · cases rest
  have dropped : Improved layout live (.treat e type span) e :=
    ⟨inner, by simp only [Expr.size]; omega,
      .of_run inner.refined_self fun call r s w t run => (passed call r s w t run).1⟩
  unfold Expr.foldTreat
  split
  · rename_i v constant
    split
    · exact dropped
    · rename_i refused
      refine .error fun call r s w t run => refused ?_
      obtain ⟨evaluated, accepted⟩ := passed call r s w t run
      rw [eq_value_of_value? constant] at evaluated
      cases evaluated
      exact accepted
  · split
    · exact dropped
    · exact .refl h

theorem CallFree.foldBuiltin {function : Builtin} {span : Span}
    (h : (Expr.builtin function es span).CallFree layout live) :
    Improved layout live (.builtin function es span) (Expr.foldBuiltin function es span) := by
  have applied {vs : List Value} (constant : values? es = some vs) (call : Caller) (r : RunSetting)
      (s : RunState) : (Expr.builtin function es span).evaluate call r s =
        function.apply call.invoke vs span r s := by
    change (evaluateList call es >>= fun vs => function.apply call.invoke vs span) r s = _
    rw [Computation.run_bind, evaluateList_values constant]
  unfold Expr.foldBuiltin
  split
  · rename_i v constant
    refine .value fun call r s w t run => ?_
    rw [applied constant] at run
    cases run
    exact ⟨rfl, rfl⟩
  · rename_i v constant
    refine .ofResult fun call r s w t run => ?_
    rw [applied constant] at run
    change ((ofExcept (v.asFunc span) : Run FuncItem) >>=
      fun f => pure (Value.int (.ofNat f.arity))) r s = _ at run
    cases result : v.asFunc span <;> rw [result] at run <;> cases run
    exact ⟨rfl, rfl⟩
  · rename_i v constant
    refine .ofResult fun call r s w t run => ?_
    rw [applied constant] at run
    change ((ofExcept (v.asFunc span) : Run FuncItem) >>= fun f => pure (Value.ofName f)) r s = _ at run
    cases result : v.asFunc span <;> rw [result] at run <;> cases run
    exact ⟨rfl, rfl⟩
  · exact .refl h

end Expr

end QueryFunctions
