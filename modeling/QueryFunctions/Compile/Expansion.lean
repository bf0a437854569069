import QueryFunctions.Compile.Folding
import QueryFunctions.Compile.Substitution
import QueryFunctions.Expr.Copy
import QueryFunctions.Expr.Item
import QueryFunctions.Expr.Sites

/-! Function bodies in place of calls. The variables of the body are declared anew in the caller's
scope, and what is bound to them stands around the copied body as lets. A dynamic call is never
expanded to a closure that it comes from itself, so expansion ends. The simplifier is a
parameter. -/
namespace QueryFunctions

namespace Compile

/-- A let, where a declared type that the value is not known to have is checked. -/
def bindValue (simplify : Expr → Compile Expr) (v : Variable) (value body : Expr) (span : Span) :
    Compile Expr := do
  let value ← match v.declared with
    | some type =>
      if value.inferredType.instanceOf type then pure value
      else simplify (.treat value type span)
    | none => pure value
  simplify (.letIn v.id v.slot value body)

/-- The body of a function with scope `callee`, to be run in the scope at hand. The first binding
is the outermost let. -/
def expand (simplify : Expr → Compile Expr) (callee : Scope) (body : Expr)
    (bindings : List (VarId × Expr)) (origins : List Origin) (span : Span) : Compile Expr := do
  let (scope, table) ← draw (liftSupply (callee.adoptInto (← get).scope))
  modifyScope fun _ => scope
  let body ← draw (body.copy table)
  bindings.reverse.foldlM (fun body (old, value) => do
    bindValue simplify (← ofFaulty (table.require old)) value body span) (body.addOrigins origins)

/-- An expanded body keeps the tail position of the call that it replaces. -/
def keepTail (tail : Bool) (e : Expr) : Expr := if tail then e.markTails else e

def simplifyCall (simplify : Expr → Compile Expr) (site : CallSite) (args : List Expr) :
    Compile Expr := do
  let entry ← entryOf site.target
  match entry.body with
  | some body =>
    if entry.inlinable (← read) then
      let e ← expand simplify entry.scope body (entry.params.zip args) [] site.span
      return keepTail site.tail e
    else return .call site args
  | none => return .call site args

end Compile

namespace Expr

/-- What messages call the target of a call or a partial application with `arity` arguments. -/
def calleeName (callee : Expr) (arity : Nat) : String :=
  match callee with
  | .value (.func item) => item.text
  | .literal site c => s!"{site.name}#{c.arity}"
  | _ => s!"(dynamic function)#{arity}"

end Expr

namespace Closure

/-- A call of the closure may be replaced by its body. -/
def inlinable (c : Closure) (o : Options) : Bool :=
  c.compiled && !c.annotations.updating && !c.body.has .ctx &&
    c.body.size ≤ c.annotations.inlineLimit.getD o.inlineLimit

/-- Moves constant supplying expressions into the body. -/
def propagate (simplify : Expr → Compile Expr) (c : Closure) : Compile Closure := do
  let constants := c.captures.filter (·.2.isValue)
  if constants.isEmpty then return c
  let (result, scope) ← Compile.inScope c.scope <| constants.foldlM (fun body (id, new) => do
    Compile.deferred (← Compile.attempt (body.substitute simplify ⟨id, new⟩))) c.body
  let body ← ofExcept result
  let body := Compile.keepTail (← read).tailCalls body
  return { c with body, scope, captures := c.captures.filter (!·.2.isValue) }

/-- A compiled closure that captures nothing and whose calls need no marking becomes an item. -/
def simplifyWith (simplify : Expr → Compile Expr) (c : Closure) : Compile Expr := do
  if !c.compiled then return .closure c
  let c ← c.propagate simplify
  if c.captures.isEmpty && !c.annotations.updating && !c.body.has .ndt then
    return .value (.func (← Compile.draw (liftSupply (c.toItem []))))
  return .closure c

end Closure

namespace Compile

/-- Keeps a literal around a closure that did not become an item. -/
def rewrapLiteral (site : LiteralSite) : Expr → Expr
  | .closure c => .literal site c
  | e => e

/-- A partial application whose target and arguments are constants becomes an item. -/
def simplifyPartial (site : PartialSite) (target : Expr) (args : List Expr) : Compile Expr := do
  let arity := args.length + site.holes.length
  let site ← match target.inferredType.funcType? with
    | none => pure site
    | some type =>
      if type.arity ≠ arity then
        throw (.arity (target.calleeName arity) type.arity arity site.span)
      let left ← ofFaulty (PartialApplication.openType type site.holes)
      pure { site with type := some left }
  match target, Expr.values? args with
  | .value (.func item), some supplied =>
    return .value (.func (← draw (PartialApplication.make item supplied site.holes site.span)))
  | _, _ => return .partialApply site target args

/-- Checks a dynamic call against the static type of its callee. -/
def checkCallee (site : DynamicSite) (callee : Expr) (arity : Nat) : Compile Unit := do
  match callee.inferredType.funcType? with
  | none => return
  | some type =>
    let name := callee.calleeName arity
    if type.arity ≠ arity then throw (.arity name type.arity arity site.span)
    if !(← read).mixedUpdates then
      if type.updating && !site.updating then throw (.updatingCallee name site.span)
      if !type.updating && site.updating then throw (.calleeNotUpdating name site.span)

/-- A dynamic call of an item with that body may be replaced by the body. -/
def inlinesItem (site : DynamicSite) (item : FuncItem) (body : Expr) (o : Options) : Bool :=
  !item.isUpdating && !site.inlinedFrom.contains item.origin && !body.has .ctx &&
    body.size ≤ item.annotations.inlineLimit.getD o.inlineLimit

/-- A call of a closure expression: arguments are bound outside, supplying expressions inside. -/
def expandClosure (simplify : Expr → Compile Expr) (site : DynamicSite) (c : Closure)
    (args : List Expr) : Compile Expr := do
  let bindings := c.params.zip args ++ c.captures
  let e ← expand simplify c.scope c.body bindings (site.inlinedFrom ++ [c.origin]) c.span
  return keepTail site.tail e

def simplifyDynamicCall (simplify : Expr → Compile Expr) (site : DynamicSite) (callee : Expr)
    (args : List Expr) : Compile Expr := do
  checkCallee site callee args.length
  let options ← read
  match callee with
  | .value (.func item) =>
    match item.code with
    | .builtin b => simplify (.builtin b args site.span)
    | .closure params captured body scope =>
      if inlinesItem site item body options then
        let bindings := (params.map (·.id)).zip args ++
          captured.map fun (v, value) => (v.id, .value value)
        let e ← expand simplify scope body bindings (site.inlinedFrom ++ [item.origin]) site.span
        return keepTail site.tail e
      else return .dynamicCall site callee args
  | .closure c | .literal _ c =>
    if c.inlinable options && !site.inlinedFrom.contains c.origin then
      expandClosure simplify site c args
    else return .dynamicCall site callee args
  | _ => return .dynamicCall site callee args

end Compile

end QueryFunctions
