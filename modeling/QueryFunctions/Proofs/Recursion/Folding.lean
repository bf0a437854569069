import QueryFunctions.Compile.Expansion
import QueryFunctions.Proofs.Form.Rewriting
import QueryFunctions.Proofs.Law.Supplied
import QueryFunctions.Proofs.Recursion.Names
import QueryFunctions.Proofs.Standard.Copying

/-! What code names once constants are folded, checks are put around it, and closures and partial
applications have become function items: nothing that it did not name before. -/
namespace QueryFunctions

variable {P : FuncId → Prop}

namespace Value

theorem within_empty : Value.empty.Within P := within_seq.2 nofun

theorem within_of_arith {op : ArithOp} {lhs rhs v : Value} {span : Span}
    (computed : op.apply lhs rhs span = .ok v) : v.Within P := by
  rcases op.apply_cases lhs rhs span with h | ⟨e, h⟩ | ⟨i, h⟩ <;> rw [h] at computed <;> cases computed
  · exact within_empty
  · exact within_int

theorem within_ofName (f : FuncItem) : (ofName f).Within P := by
  unfold ofName
  split
  · exact within_str
  · exact within_empty

end Value

namespace Expr

theorem Within.of_value? {e : Expr} {v : Value} (h : e.Within P) (found : e.value? = some v) :
    v.Within P := by
  cases e with
  | value u =>
    cases found
    exact h
  | _ => cases found

theorem within_of_values? {es : List Expr} {vs : List Value} (all : ∀ e ∈ es, e.Within P)
    (found : values? es = some vs) : ∀ v ∈ vs, v.Within P := by
  induction es generalizing vs with
  | nil =>
    cases found
    exact nofun
  | cons e es ih =>
    simp only [values?, List.mapM_cons, Option.bind_eq_bind, Option.pure_def,
      Option.bind_eq_some_iff] at found
    obtain ⟨v, hv, vs', rest, same⟩ := found
    cases same
    have head := (all e (by simp)).of_value? hv
    exact List.forall_mem_cons.2 ⟨head, ih (fun x hx => all x (by simp [hx])) rest⟩

theorem within_ofResult {result : Except QueryError Value} (value : ∀ v, result = .ok v → v.Within P) :
    (ofResult result).Within P := by
  cases result with
  | ok v => exact value v rfl
  | error e => exact within_error

theorem within_foldBranch {cond yes no : Expr} {span : Span}
    (h : (Expr.branch cond yes no span).Within P) : (foldBranch cond yes no span).Within P := by
  have parts := within_branch.1 h
  unfold foldBranch
  split
  · split
    · exact parts.2.1
    · exact parts.2.2
    · exact h
  · exact h

theorem within_foldArith {op : ArithOp} {lhs rhs : Expr} {span : Span}
    (h : (Expr.arith op lhs rhs span).Within P) : (foldArith op lhs rhs span).Within P := by
  unfold foldArith
  split
  · exact within_ofResult fun v => Value.within_of_arith
  · exact h

theorem within_foldCompare {op : CompareOp} {lhs rhs : Expr} {span : Span}
    (h : (Expr.compare op lhs rhs span).Within P) : (foldCompare op lhs rhs span).Within P := by
  unfold foldCompare
  split
  · rename_i l r _ _
    cases op.apply l r span with
    | error e => exact within_error
    | ok b => exact Value.within_bool
  · exact h

theorem within_foldSeq {items : List Expr} (h : (Expr.seq items).Within P) :
    (foldSeq items).Within P := by
  unfold foldSeq
  split
  · rename_i vs found
    exact Value.within_ofItems (within_of_values? (within_seq.1 h) found)
  · exact h

theorem within_foldTreat {e : Expr} {type : SeqType} {span : Span}
    (h : (Expr.treat e type span).Within P) : (foldTreat e type span).Within P := by
  have inner := within_treat.1 h
  unfold foldTreat
  split
  · split
    · exact inner
    · exact within_error
  · split
    · exact inner
    · exact h

theorem within_foldBuiltin {function : Builtin} {args : List Expr} {span : Span}
    (h : (Expr.builtin function args span).Within P) :
    (foldBuiltin function args span).Within P := by
  have ofMap {f : FuncItem → Value} {v : Value} (hf : ∀ g, (f g).Within P) :
      (ofResult ((v.asFunc span).map f)).Within P := by
    cases v.asFunc span with
    | error e => exact within_error
    | ok g => exact hf g
  unfold foldBuiltin
  split
  · exact Value.within_int
  · exact ofMap fun _ => Value.within_int
  · exact ofMap Value.within_ofName
  · exact h

theorem Within.coerce {e : Expr} (h : e.Within P) (declared : Option SeqType) (span : Span) :
    (e.coerce declared span).Within P := by
  unfold Expr.coerce
  split
  · split
    · exact h
    · exact within_treat.2 h
  · exact h

theorem Within.keepTail {e : Expr} (h : e.Within P) (tail : Bool) :
    (Compile.keepTail tail e).Within P := by
  unfold Compile.keepTail
  split
  · exact h.markTails
  · exact h

end Expr

theorem Closure.Within.toItem {c : Closure} (h : c.Within P) (start : Supply) :
    ((c.toItem []).run start).1.Within P := by
  rintro _ _ _ _ ⟨⟩
  exact ⟨nofun, h.2⟩

namespace PartialApplication

theorem arrange_within (holes : List Nat) {params : List Expr} (all : ∀ e ∈ params, e.Within P)
    (pos count : Nat) (supplied : List Value) (values : ∀ v ∈ supplied, v.Within P) :
    ∀ e ∈ arrange holes params pos count supplied, e.Within P := by
  induction count generalizing pos supplied with
  | zero => exact nofun
  | succ count ih =>
    unfold arrange
    split
    · rename_i param found
      obtain ⟨i, -, hi⟩ := Option.bind_eq_some_iff.1 found
      exact List.forall_mem_cons.2 ⟨all _ (List.mem_of_getElem? hi), ih _ _ values⟩
    · refine List.forall_mem_cons.2 ⟨?_, ih _ _ fun v mem => values v (List.mem_of_mem_tail mem)⟩
      cases supplied with
      | nil => exact Value.within_empty
      | cons v vs => exact values v (by simp)

theorem make_within {item : FuncItem} {supplied : List Value} {holes : List Nat} {span : Span}
    (h : item.Within P) (values : ∀ v ∈ supplied, v.Within P) :
    Yields (make item supplied holes span) (·.Within P) := by
  have opened : Yields (liftSupply (openVariables item {} 0 holes)) fun _ => True :=
    Yields.liftSupply fun supply => ⟨openVariables_grows item 0 holes {} supply, trivial⟩
  refine Yields.bind opened fun scope _ => ?_
  refine Yields.bind Yields.freshOrigin fun origin _ => Yields.bind Yields.freshItem fun id _ => ?_
  refine Yields.bind (Yields.ofExcept fun _ _ => trivial) fun type (_ : True) => Yields.pure ?_
  rintro _ _ _ _ ⟨⟩
  refine ⟨nofun, Expr.within_dynamicCall.2 ⟨Value.within_func.2 h, ?_⟩⟩
  exact arrange_within holes (List.forall_mem_map.2 fun _ _ => Expr.within_var) _ _ _ values

end PartialApplication

end QueryFunctions
