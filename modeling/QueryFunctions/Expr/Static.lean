import QueryFunctions.Value.Basic

/-! What is known of an expression before it runs: its type, and whether it updates, is
non-deterministic or depends on the focus. The body of a closure has no part in the latter, since
making a closure does not run it. -/
namespace QueryFunctions

namespace Closure

/-- The function type of a closure whose body has the type `bodyType`. -/
def typeWith (c : Closure) (bodyType : SeqType) : FuncType where
  params := c.params.map fun p => ((c.scope.find? p).bind (·.declared)).getD .item
  ret := c.declared.getD (if c.compiled then bodyType else .item)
  updating := c.annotations.updating

end Closure

mutual
def Expr.inferredType : Expr → SeqType
  | .value v => v.seqType
  | .var ref => ref.type
  | .letIn _ _ _ body => body.inferredType
  | .branch _ yes no _ => yes.inferredType.union no.inferredType
  | .arith _ _ _ _ => .integer
  | .compare _ _ _ _ => .boolean
  | .seq [] => .empty
  | .seq _ | .focus _ | .error _ => .item
  | .treat _ type _ => type
  | .builtin function _ _ => function.ret
  | .closure c | .literal _ c => (c.typeWith c.bodyType).toSeqType
  | .partialApply site _ _ => (site.type.map FuncType.toSeqType).getD .anyFunction
  | .call site _ => site.type
  | .dynamicCall _ callee _ => (callee.inferredType.funcType?.map (·.ret)).getD .item
termination_by structural x => x

def Closure.bodyType : Closure → SeqType
  | ⟨_, _, body, _, _, _, _, _, _, _⟩ => body.inferredType
termination_by structural x => x
end

namespace Closure

def funcType (c : Closure) : FuncType := c.typeWith c.bodyType

theorem bodyType_eq (c : Closure) : c.bodyType = c.body.inferredType := by
  cases c
  rfl

end Closure

mutual
def Expr.has (flag : Flag) : Expr → Bool
  | .value _ | .var _ | .error _ | .literal _ _ => false
  | .focus _ => flag == .ctx
  | .letIn _ _ value body => value.has flag || body.has flag
  | .branch cond yes no _ => cond.has flag || yes.has flag || no.has flag
  | .arith _ lhs rhs _ | .compare _ lhs rhs _ => lhs.has flag || rhs.has flag
  | .seq items => anyHas flag items
  | .treat expr _ _ => expr.has flag
  | .builtin function args _ => function.flags.contains flag || anyHas flag args
  | .closure c => c.has flag
  | .partialApply _ target args => target.has flag || anyHas flag args
  | .call site args => site.flags.contains flag || anyHas flag args
  | .dynamicCall site callee args =>
    flag == .upd && site.updating || callee.has flag || anyHas flag args
termination_by structural x => x

def anyHas (flag : Flag) : List Expr → Bool
  | [] => false
  | e :: es => e.has flag || anyHas flag es
termination_by structural x => x

/-- Only the expressions that supply captured variables are run to make a closure. -/
def Closure.has (flag : Flag) : Closure → Bool
  | ⟨_, _, _, _, _, _, captures, _, _, _⟩ => anySupplyHas flag captures
termination_by structural x => x

def anySupplyHas (flag : Flag) : List (VarId × Expr) → Bool
  | [] => false
  | (_, e) :: es => e.has flag || anySupplyHas flag es
termination_by structural x => x
end

theorem anyHas_eq_any (flag : Flag) (es : List Expr) : anyHas flag es = es.any (·.has flag) := by
  induction es with
  | nil => rfl
  | cons e es ih => simp [anyHas, ih]

namespace Expr

/-- The three properties of an expression together. -/
def flags (e : Expr) : Flags := ⟨e.has .upd, e.has .ndt, e.has .ctx⟩

/-- The empty sequence and errors never update, so no one asks whether they should. -/
def isVacuous : Expr → Bool
  | .value v => v.isEmpty
  | .error _ => true
  | _ => false

end Expr

namespace FuncItem

def body? (f : FuncItem) : Option Expr :=
  match f.code with
  | .builtin _ => none
  | .closure _ _ body _ => some body

end FuncItem

end QueryFunctions
