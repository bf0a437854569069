import QueryFunctions.Expr.Static
import QueryFunctions.Scope.Renaming

/-! Copies of code under fresh variables. A variable that the renaming maps is replaced; any other
is free in the copied code and stays. A closure takes a scope of its own along, so its body is
copied against that scope and only its supplying expressions against the outer renaming. -/
namespace QueryFunctions

mutual
def Expr.copy (r : Renaming) : Expr → Supplied Expr
  | .value v => return .value v
  | .focus span => return .focus span
  | .error e => return .error e
  | .var ref =>
    match r.find? ref.id with
    | some v => return .var ⟨v.id, v.slot, v.type, ref.span⟩
    | none => return .var ref
  | .letIn id slot value body => do
    let (id, slot) := ((r.find? id).map fun v => (v.id, v.slot)).getD (id, slot)
    return .letIn id slot (← value.copy r) (← body.copy r)
  | .branch cond yes no span =>
    return .branch (← cond.copy r) (← yes.copy r) (← no.copy r) span
  | .arith op lhs rhs span => return .arith op (← lhs.copy r) (← rhs.copy r) span
  | .compare op lhs rhs span => return .compare op (← lhs.copy r) (← rhs.copy r) span
  | .seq items => return .seq (← copyList r items)
  | .treat expr type span => return .treat (← expr.copy r) type span
  | .builtin function args span => return .builtin function (← copyList r args) span
  | .closure c => return .closure (← c.copy r)
  | .literal site c => return .literal site (← c.copy r)
  | .partialApply site target args =>
    return .partialApply site (← target.copy r) (← copyList r args)
  | .call site args => return .call site (← copyList r args)
  | .dynamicCall site callee args =>
    return .dynamicCall site (← callee.copy r) (← copyList r args)
termination_by structural x => x

def copyList (r : Renaming) : List Expr → Supplied (List Expr)
  | [] => return []
  | e :: es => return (← e.copy r) :: (← copyList r es)
termination_by structural x => x

def Closure.copy (outer : Renaming) : Closure → Supplied Closure
  | c@⟨_, params, body, _, _, scope, captures, _, _, _⟩ => do
    let (scope, inner) ← liftSupply scope.copy
    let params ← params.mapM fun p => return (← inner.require p).id
    let body ← body.copy inner
    let captures ← copySupplies outer inner captures
    return { c with params, body, scope, captures }
termination_by structural x => x

def copySupplies (outer inner : Renaming) : List (VarId × Expr) → Supplied (List (VarId × Expr))
  | [] => return []
  | (id, e) :: es => do
    let id := (← inner.require id).id
    return (id, ← e.copy outer) :: (← copySupplies outer inner es)
termination_by structural x => x
end

end QueryFunctions
