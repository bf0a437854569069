import QueryFunctions.Expr.Static

/-! Walks over all nodes of an expression. A closure counts with its supplying expressions first
and its body after them, and so does the closure behind a literal, which captures nothing; constant
function items are not entered. -/
namespace QueryFunctions

mutual
/-- The expression and all below it, parents first. -/
def Expr.nodes : Expr → List Expr
  | e@(.value _) | e@(.var _) | e@(.focus _) | e@(.error _) => [e]
  | e@(.letIn _ _ value body) => e :: (value.nodes ++ body.nodes)
  | e@(.branch cond yes no _) => e :: (cond.nodes ++ (yes.nodes ++ no.nodes))
  | e@(.arith _ lhs rhs _) | e@(.compare _ lhs rhs _) => e :: (lhs.nodes ++ rhs.nodes)
  | e@(.seq items) => e :: listNodes items
  | e@(.treat expr _ _) => e :: expr.nodes
  | e@(.builtin _ args _) => e :: listNodes args
  | e@(.closure c) | e@(.literal _ c) => e :: c.nodes
  | e@(.partialApply _ target args) => e :: (target.nodes ++ listNodes args)
  | e@(.call _ args) => e :: listNodes args
  | e@(.dynamicCall _ callee args) => e :: (callee.nodes ++ listNodes args)
termination_by structural x => x

def listNodes : List Expr → List Expr
  | [] => []
  | e :: es => e.nodes ++ listNodes es
termination_by structural x => x

def Closure.nodes : Closure → List Expr
  | ⟨_, _, body, _, _, _, captures, _, _, _⟩ => supplyNodes captures ++ body.nodes
termination_by structural x => x

def supplyNodes : List (VarId × Expr) → List Expr
  | [] => []
  | (_, e) :: es => e.nodes ++ supplyNodes es
termination_by structural x => x
end

mutual
def Expr.size : Expr → Nat
  | .value _ | .var _ | .focus _ | .error _ => 1
  | .letIn _ _ value body => value.size + body.size + 1
  | .branch cond yes no _ => cond.size + yes.size + no.size + 1
  | .arith _ lhs rhs _ | .compare _ lhs rhs _ => lhs.size + rhs.size + 1
  | .seq items => listSize items + 1
  | .treat expr _ _ => expr.size + 1
  | .builtin _ args _ => listSize args + 1
  | .closure c | .literal _ c => c.size + 1
  | .partialApply _ target args => target.size + listSize args + 1
  | .call _ args => listSize args + 1
  | .dynamicCall _ callee args => callee.size + listSize args + 1
termination_by structural x => x

def listSize : List Expr → Nat
  | [] => 0
  | e :: es => e.size + listSize es
termination_by structural x => x

def Closure.size : Closure → Nat
  | ⟨_, _, body, _, _, _, captures, _, _, _⟩ => supplySize captures + body.size
termination_by structural x => x

def supplySize : List (VarId × Expr) → Nat
  | [] => 0
  | (_, e) :: es => e.size + supplySize es
termination_by structural x => x
end

mutual
/-- Some node has the property `p`; the walk ends at the first. -/
def Expr.anyNode (p : Expr → Bool) : Expr → Bool
  | e@(.value _) | e@(.var _) | e@(.focus _) | e@(.error _) => p e
  | e@(.letIn _ _ value body) => p e || value.anyNode p || body.anyNode p
  | e@(.branch cond yes no _) => p e || cond.anyNode p || yes.anyNode p || no.anyNode p
  | e@(.arith _ lhs rhs _) | e@(.compare _ lhs rhs _) => p e || lhs.anyNode p || rhs.anyNode p
  | e@(.seq items) => p e || listAnyNode p items
  | e@(.treat expr _ _) => p e || expr.anyNode p
  | e@(.builtin _ args _) => p e || listAnyNode p args
  | e@(.closure c) | e@(.literal _ c) => p e || c.anyNode p
  | e@(.partialApply _ target args) => p e || target.anyNode p || listAnyNode p args
  | e@(.call _ args) => p e || listAnyNode p args
  | e@(.dynamicCall _ callee args) => p e || callee.anyNode p || listAnyNode p args
termination_by structural x => x

def listAnyNode (p : Expr → Bool) : List Expr → Bool
  | [] => false
  | e :: es => e.anyNode p || listAnyNode p es
termination_by structural x => x

def Closure.anyNode (p : Expr → Bool) : Closure → Bool
  | ⟨_, _, body, _, _, _, captures, _, _, _⟩ => supplyAnyNode p captures || body.anyNode p
termination_by structural x => x

def supplyAnyNode (p : Expr → Bool) : List (VarId × Expr) → Bool
  | [] => false
  | (_, e) :: es => e.anyNode p || supplyAnyNode p es
termination_by structural x => x
end

namespace Expr

def isReferenceTo (id : VarId) : Expr → Bool
  | .var ref => ref.id == id
  | _ => false

def references (e : Expr) (id : VarId) : Bool := e.anyNode (isReferenceTo id)

def isUseOf (target : FuncId) : Expr → Bool
  | .call site _ => site.target == target
  | .literal site _ => site.target == target
  | _ => false

def uses (e : Expr) (target : FuncId) : Bool := e.anyNode (isUseOf target)

def callTarget? : Expr → Option FuncId
  | .call site _ => some site.target
  | _ => none

/-- The functions that are called, each once, in order of their first call. -/
def callees (e : Expr) : List FuncId := (e.nodes.filterMap callTarget?).eraseDups

theorem references_var (ref : VarRef) (id : VarId) :
    (Expr.var ref).references id = (ref.id == id) := rfl

end Expr

mutual
/-- Evaluation performs updates, judging calls by the annotation of their target. -/
def Expr.updates (isUpdating : FuncId → Bool) : Expr → Bool
  | .value _ | .var _ | .focus _ | .error _ | .literal _ _ => false
  | .letIn _ _ value body => value.updates isUpdating || body.updates isUpdating
  | .branch cond yes no _ =>
    cond.updates isUpdating || yes.updates isUpdating || no.updates isUpdating
  | .arith _ lhs rhs _ | .compare _ lhs rhs _ => lhs.updates isUpdating || rhs.updates isUpdating
  | .seq items => anyUpdates isUpdating items
  | .treat expr _ _ => expr.updates isUpdating
  | .builtin function args _ => function.flags.upd || anyUpdates isUpdating args
  | .closure c => c.updates isUpdating
  | .partialApply _ target args => target.updates isUpdating || anyUpdates isUpdating args
  | .call site args => isUpdating site.target || anyUpdates isUpdating args
  | .dynamicCall site callee args =>
    site.updating || callee.updates isUpdating || anyUpdates isUpdating args
termination_by structural x => x

def anyUpdates (isUpdating : FuncId → Bool) : List Expr → Bool
  | [] => false
  | e :: es => e.updates isUpdating || anyUpdates isUpdating es
termination_by structural x => x

/-- Making a closure updates if one of the supplying expressions does. -/
def Closure.updates (isUpdating : FuncId → Bool) : Closure → Bool
  | ⟨_, _, _, _, _, _, captures, _, _, _⟩ => anySupplyUpdates isUpdating captures
termination_by structural x => x

def anySupplyUpdates (isUpdating : FuncId → Bool) : List (VarId × Expr) → Bool
  | [] => false
  | (_, e) :: es => e.updates isUpdating || anySupplyUpdates isUpdating es
termination_by structural x => x
end

end QueryFunctions
