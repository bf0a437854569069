import QueryFunctions.Registry.Basic

/-! What a name and an argument count stand for: a built-in if there is one of that name, else a
registered function, whose declaration may come later. -/
namespace QueryFunctions

namespace Registry

/-- A call by name. The arity of a built-in is checked at once. -/
def resolveCall (r : Registry) (name : String) (args : List Expr) (span : Span) :
    Except QueryError Expr × Registry :=
  match Builtin.ofName? name with
  | some b =>
    if args.length = b.arity then (.ok (.builtin b args span), r)
    else (.error (.arity b.qualifiedName b.arity args.length span), r)
  | none =>
    let (target, r) := r.reference name args.length span
    (.ok (.call ⟨name, target, false, .item, {}, span⟩ args), r)

/-- Pinned variables `arg1`, `arg2`, …, `count` of them after `first`. -/
def numberedParams (scope : Scope) (first : Nat) : (count : Nat) → StateM Supply Scope
  | 0 => return scope
  | count + 1 => do
    let (_, scope) ← scope.declare s!"arg{first + 1}" none true
    numberedParams scope (first + 1) count

/-- A function literal: a closure that calls the function with its own parameters. -/
def resolveLiteral (r : Registry) (name : String) (arity : Nat) (span : Span) :
    StateM Supply (Except QueryError Expr × Registry) := do
  match Builtin.ofName? name with
  | some b =>
    if arity = b.arity then return (.ok (.value (.func (← FuncItem.ofBuiltin b))), r)
    else return (.error (.resolution b.qualifiedName arity none span), r)
  | none =>
    let (target, r) := r.reference name arity span
    let scope ← numberedParams {} 0 arity
    let args := scope.vars.map fun v => Expr.var ⟨v.id, v.slot, v.type, span⟩
    let origin ← Supply.freshOrigin
    let closure := {
      name := some name
      params := scope.vars.map (·.id)
      body := .call ⟨name, target, false, .item, {}, span⟩ args
      declared := none
      annotations := {}
      scope, origin, span
      captures := []
      compiled := false }
    return (.ok (.literal ⟨name, target, span⟩ closure), r)

end Registry

end QueryFunctions
