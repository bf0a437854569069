import Mathlib
import QueryFunctions.Proofs.Query.Units
import QueryFunctions.Proofs.SeqType.Subtyping

/-! Static types and the values that they are known of. A type is right of most expressions whatever
their operands are. It is taken on trust of variables, calls and partial applications, where it was
put on record before the run, and of arithmetic, which is taken to have a result. Conditionals and
lets hand on what they end with, and so does a check that was dropped because of a static type. -/
namespace QueryFunctions

namespace Expr

/-- The expressions that an expression may end with, whose value is then its own. -/
inductive Ending : Expr → Expr → Prop
  | self (e : Expr) : Ending e e
  | letIn (id : VarId) (slot : Nat) (bound : Expr) {body l : Expr} :
    Ending body l → Ending (.letIn id slot bound body) l
  | yes (cond no : Expr) (span : Span) {yes l : Expr} :
    Ending yes l → Ending (.branch cond yes no span) l
  | no (cond yes : Expr) (span : Span) {no l : Expr} :
    Ending no l → Ending (.branch cond yes no span) l

/-- The value is not what was taken on trust of the expression. -/
def Belies (v : Value) : Expr → Prop
  | .arith _ _ _ _ => v = .empty
  | e@(.var _) | e@(.call _ _) | e@(.partialApply _ _ _) | e@(.dynamicCall _ _ _) =>
    e.inferredType.accepts v = false
  | _ => False

/-- Somewhere an expression that `e` ends with gives the value, and belies its type. -/
def Breaks (call : Caller) (r : RunSetting) (e : Expr) (v : Value) (t : RunState) : Prop :=
  ∃ l u, e.Ending l ∧ l.evaluate call r u = (.ok (.ok v), t) ∧ l.Belies v

end Expr

theorem Builtin.ret_accepts {invoke : Invocation} (b : Builtin) {args : List Value} {span : Span}
    {r : RunSetting} {s t : RunState} {v : Value}
    (run : b.apply invoke args span r s = (.ok (.ok v), t)) : b.ret.accepts v = true := by
  unfold apply at run
  split at run <;> try rfl
  · obtain ⟨f, u, -, run⟩ := Computation.of_bind_ok run
    cases run
    rfl
  · cases run
    rfl
  · obtain ⟨x, u, -, run⟩ := Computation.of_bind_ok run
    obtain ⟨y, w, -, run⟩ := Computation.of_bind_ok run
    cases run
    rfl
  · obtain ⟨_, u, -, run⟩ := Computation.of_bind_ok run
    cases run
    rfl
  · cases run

namespace Expr

variable {call : Caller} {r : RunSetting} {s t : RunState} {v : Value} {e : Expr}

theorem Breaks.of_ending {l : Expr} (broken : l.Breaks call r v t)
    (outer : ∀ m, l.Ending m → e.Ending m) : e.Breaks call r v t := by
  obtain ⟨m, u, ending, run, belied⟩ := broken
  exact ⟨m, u, outer m ending, run, belied⟩

theorem accepts_or_breaks (run : e.evaluate call r s = (.ok (.ok v), t))
    (trusted : e.inferredType.accepts v = false → e.Belies v) :
    e.inferredType.accepts v = true ∨ e.Breaks call r v t := by
  cases known : e.inferredType.accepts v with
  | true => exact .inl rfl
  | false => exact .inr ⟨e, s, .self e, run, trusted known⟩

theorem function_accepts {f : FuncItem} {params : List SeqType} (ret : SeqType) (updating : Bool)
    (arity : f.type.params.length = params.length) :
    (SeqType.function params ret updating).accepts (.func f) = true := by
  simpa [SeqType.accepts, FuncItem.arity, FuncType.arity] using arity

theorem closure_accepts {c : Closure} {f : FuncItem}
    (run : c.evaluate call r s = (.ok (.ok f), t)) : c.funcType.toSeqType.accepts (.func f) = true := by
  obtain ⟨name, params, body, declared, annotations, scope, captures, origin, compiled, span⟩ := c
  obtain ⟨captured, u, -, drawn⟩ := Computation.of_bind_ok run
  cases drawn
  exact function_accepts _ _ rfl

/-- A value has the type of its expression, unless some type that was taken on trust is belied. -/
theorem inferredType_accepts : (e : Expr) → {s : RunState} →
    e.evaluate call r s = (.ok (.ok v), t) →
    e.inferredType.accepts v = true ∨ e.Breaks call r v t
  | .letIn id slot bound body, s, run => by
    obtain ⟨x, u, -, run⟩ := Computation.of_bind_ok run
    obtain ⟨_, u, -, run⟩ := Computation.of_bind_ok run
    exact (inferredType_accepts body run).imp (fun accepted => accepted)
      (·.of_ending fun _ => .letIn id slot bound)
  | .branch cond yes no span, s, run => by
    obtain ⟨c, u, -, run⟩ := Computation.of_bind_ok run
    obtain ⟨b, w, -, run⟩ := Computation.of_bind_ok run
    cases b with
    | true =>
      exact (inferredType_accepts yes run).imp (fun accepted => SeqType.accepts_union (.inl accepted))
        (·.of_ending fun _ => .yes cond no span)
    | false =>
      exact (inferredType_accepts no run).imp (fun accepted => SeqType.accepts_union (.inr accepted))
        (·.of_ending fun _ => .no cond yes span)
  | .value w, s, run => by
    cases run
    exact .inl (Value.accepts_seqType v)
  | .var _, s, run | .call _ _, s, run | .partialApply _ _ _, s, run
  | .dynamicCall _ _ _, s, run => accepts_or_breaks run id
  | .arith op lhs rhs span, s, run => by
    refine accepts_or_breaks run fun unaccepted => ?_
    obtain ⟨x, u, -, run⟩ := Computation.of_bind_ok run
    obtain ⟨y, w, -, run⟩ := Computation.of_bind_ok run
    rcases op.apply_cases x y span with h | ⟨e, h⟩ | ⟨i, h⟩ <;> rw [h] at run <;> cases run
    · rfl
    · cases unaccepted
  | .compare op lhs rhs span, s, run => by
    obtain ⟨x, u, -, run⟩ := Computation.of_bind_ok run
    obtain ⟨y, w, -, run⟩ := Computation.of_bind_ok run
    obtain ⟨b, w, -, run⟩ := Computation.of_bind_ok run
    cases run
    exact .inl rfl
  | .seq [], s, run => by
    cases run
    exact .inl rfl
  | .seq (_ :: _), s, run | .focus span, s, run | .error e, s, run => .inl rfl
  | .treat e type span, s, run => by
    obtain ⟨w, u, -, run⟩ := Computation.of_bind_ok run
    split at run
    · rename_i accepted
      cases run
      exact .inl accepted
    · cases run
  | .builtin b args span, s, run => by
    obtain ⟨vs, u, -, run⟩ := Computation.of_bind_ok run
    exact .inl (b.ret_accepts run)
  | .closure c, s, run | .literal _ c, s, run => by
    obtain ⟨f, u, made, run⟩ := Computation.of_bind_ok run
    cases run
    exact .inl (closure_accepts made)
termination_by structural x => x

end Expr

def incrementing : Sample {} where
  requests :=
    [.declare { name := some "f", params := [("x", none)], returns := some .integer }
        (.arith .add (.var "x") (.datum (.int 1))),
      .main (.call "f" [.focus])]
  made := by cbv
  compiled := by cbv

theorem incrementing_answer : (incrementing.query.execute 9 .quiet (some .empty)).1 =
    .ok (.ok ⟨.empty, []⟩) := by cbv

theorem incrementing_type : (incrementing.query.compile 9).2.main.inferredType = .integer := by cbv

/-- A value need not have the type that is known of the main expression. -/
theorem not_inferredType_accepts : ¬∀ (requests : List BuildStep) (q : Query) (budget : Nat)
    (focus : Option Value) (answer : Answer), Query.build {} requests = .ok q →
    (q.execute budget .quiet focus).1 = .ok (.ok answer) →
    (q.compile budget).2.main.inferredType.accepts answer.value = true := by
  intro all
  have accepted := all _ _ _ _ _ incrementing.made incrementing_answer
  rw [incrementing_type] at accepted
  cases accepted

end QueryFunctions
