import QueryFunctions.Compile.Basic

/-! A constant or another variable in place of a variable. Every node on the way to a reference is
simplified anew; nodes without one are left as they are. The simplifier is a parameter. -/
namespace QueryFunctions

structure Substitution where
  id : VarId
  new : Expr

/-- `rewritten` if `e` refers to the variable, else `e` itself. -/
def whereUsed (s : Substitution) (e : Expr) (rewritten : Compile Expr) : Compile Expr :=
  if e.references s.id then rewritten else return e

mutual
def Expr.substitute (simplify : Expr → Compile Expr) (s : Substitution) :
    Expr → Compile Expr
  | e@(.value _) | e@(.focus _) | e@(.error _) | e@(.literal _ _) => return e
  | e@(.var ref) => return if ref.id == s.id then s.new else e
  | e@(.letIn x slot value body) => whereUsed s e do
    let value ← value.substitute simplify s
    let body ← body.substitute simplify s
    simplify (.letIn x slot value body)
  | e@(.branch cond yes no span) => whereUsed s e do
    let cond ← cond.substitute simplify s
    let yes ← yes.substitute simplify s
    let no ← no.substitute simplify s
    simplify (.branch cond yes no span)
  | e@(.arith op lhs rhs span) => whereUsed s e do
    let lhs ← lhs.substitute simplify s
    let rhs ← rhs.substitute simplify s
    simplify (.arith op lhs rhs span)
  | e@(.compare op lhs rhs span) => whereUsed s e do
    let lhs ← lhs.substitute simplify s
    let rhs ← rhs.substitute simplify s
    simplify (.compare op lhs rhs span)
  | e@(.seq items) => whereUsed s e do
    simplify (.seq (← substituteList simplify s items))
  | e@(.treat expr type span) => whereUsed s e do
    simplify (.treat (← expr.substitute simplify s) type span)
  | e@(.builtin function args span) => whereUsed s e do
    simplify (.builtin function (← substituteList simplify s args) span)
  | e@(.closure c) => whereUsed s e do
    simplify (.closure (← c.substitute simplify s))
  | e@(.partialApply site target args) => whereUsed s e do
    let target ← target.substitute simplify s
    simplify (.partialApply site target (← substituteList simplify s args))
  | e@(.call site args) => whereUsed s e do
    simplify (.call site (← substituteList simplify s args))
  | e@(.dynamicCall site callee args) => whereUsed s e do
    let callee ← callee.substitute simplify s
    simplify (.dynamicCall site callee (← substituteList simplify s args))
termination_by structural x => x

def substituteList (simplify : Expr → Compile Expr) (s : Substitution) :
    List Expr → Compile (List Expr)
  | [] => return []
  | e :: es => do
    let e ← e.substitute simplify s
    return e :: (← substituteList simplify s es)
termination_by structural x => x

/-- A closure has variables of its own, so only the supplying expressions can refer to others. -/
def Closure.substitute (simplify : Expr → Compile Expr) (s : Substitution) :
    Closure → Compile Closure
  | c@⟨_, _, _, _, _, _, captures, _, _, _⟩ =>
    return { c with captures := ← substituteSupplies simplify s captures }
termination_by structural x => x

def substituteSupplies (simplify : Expr → Compile Expr) (s : Substitution) :
    List (VarId × Expr) → Compile (List (VarId × Expr))
  | [] => return []
  | (key, e) :: es => do
    let e ← e.substitute simplify s
    return (key, e) :: (← substituteSupplies simplify s es)
termination_by structural x => x
end

end QueryFunctions
