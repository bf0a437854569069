import QueryFunctions.Compile.Expansion

/-! The simplifier: one rewriting step at an expression whose operands are compiled, which may
simplify what it makes in turn. A budget bounds how deep that goes. -/
namespace QueryFunctions

namespace Expr

/-- One step, with `simplify` for the expressions that it makes. -/
def simplifyWith (simplify : Expr → Compile Expr) : Expr → Compile Expr
  | .letIn id slot bound body =>
    if bound.isAtom then body.substitute simplify ⟨id, bound⟩
    else if !body.references id && !bound.has .upd && !bound.has .ndt then return body
    else return .letIn id slot bound body
  | .branch cond yes no span => return foldBranch cond yes no span
  | .arith op lhs rhs span => return foldArith op lhs rhs span
  | .compare op lhs rhs span => return foldCompare op lhs rhs span
  | .seq items => return foldSeq items
  | .treat expr type span => return foldTreat expr type span
  | .builtin function args span => return foldBuiltin function args span
  | .closure c => c.simplifyWith simplify
  | .literal site c => return Compile.rewrapLiteral site (← c.simplifyWith simplify)
  | .partialApply site target args => Compile.simplifyPartial site target args
  | .call site args => Compile.simplifyCall simplify site args
  | .dynamicCall site callee args => Compile.simplifyDynamicCall simplify site callee args
  | e => return e

def simplify : (budget : Nat) → Expr → Compile Expr
  | 0, _ => Compile.fault .budget
  | budget + 1, e => e.simplifyWith (simplify budget)

end Expr

end QueryFunctions
