import QueryFunctions.Compile.Simplify
import QueryFunctions.Registry.Flags

/-! Compilation: operands first, then the simplifier. A call compiles its target before itself, and
a function that is reached again while it is being compiled is recursive. An error in the body of
a closure is put off until the closure is called, unless it concerns the whole query; an error in
a registered function stays with the function. -/
namespace QueryFunctions

namespace Closure

/-- Compiles a closure, given how its supplying expressions and its body are compiled. -/
def compileParts (c : Closure) (supplies : Compile (List (VarId × Expr))) (body : Compile Expr) :
    Compile Closure := do
  let captures ← supplies
  let scope := captures.foldl (fun scope (id, e) => scope.refine id e.inferredType) c.scope
  let (result, scope) ← Compile.inScope scope body
  let body ← Compile.deferred (result.map (·.coerce c.declared c.span))
  let body := Compile.keepTail (← read).tailCalls body
  return { c with captures, scope, body, compiled := true }

/-- Takes over names and types of the parameters, result type and annotations of a function. -/
def adaptTo (c : Closure) (target : Entry) : Closure :=
  let scope := (c.params.zip target.paramVariables).foldl (fun scope (id, v) =>
    (scope.setDeclared id v.declared).rename id v.name) c.scope
  { c with scope, declared := target.declared, annotations := target.annotations }

end Closure

namespace Compile

def compileRef (ref : VarRef) : Compile Expr := do
  match (← get).scope.find? ref.id with
  | some v => return .var { ref with slot := v.slot, type := v.type }
  | none => return .var ref

/-- A call whose target has been compiled: it learns the result type and the properties of the
target. -/
def compileCall (simplify : Expr → Compile Expr) (site : CallSite) (args : List Expr) :
    Compile Expr := do
  let target ← entryOf site.target
  if target.arity ≠ args.length then
    throw (.arity site.name target.arity args.length site.span)
  let flags := { target.flags with upd := target.flags.upd || target.annotations.updating }
  simplify (.call { site with type := target.retType, flags } args)

end Compile

mutual
def Expr.compileWith (simplify : Expr → Compile Expr) (prepare : FuncId → Compile Unit) :
    Expr → Compile Expr
  | .value v => return .value v
  | .focus span => return .focus span
  | .error e => return .error e
  | .var ref => Compile.compileRef ref
  | .letIn id slot value body => do
    let value ← value.compileWith simplify prepare
    Compile.modifyScope (·.refine id value.inferredType)
    let body ← body.compileWith simplify prepare
    simplify (.letIn id slot value body)
  | .branch cond yes no span => do
    let cond ← cond.compileWith simplify prepare
    let yes ← yes.compileWith simplify prepare
    let no ← no.compileWith simplify prepare
    simplify (.branch cond yes no span)
  | .arith op lhs rhs span => do
    let lhs ← lhs.compileWith simplify prepare
    let rhs ← rhs.compileWith simplify prepare
    simplify (.arith op lhs rhs span)
  | .compare op lhs rhs span => do
    let lhs ← lhs.compileWith simplify prepare
    let rhs ← rhs.compileWith simplify prepare
    simplify (.compare op lhs rhs span)
  | .seq items => do simplify (.seq (← compileList simplify prepare items))
  | .treat expr type span => do simplify (.treat (← expr.compileWith simplify prepare) type span)
  | .builtin function args span => do
    simplify (.builtin function (← compileList simplify prepare args) span)
  | .closure c => do
    if c.compiled then return .closure c
    simplify (.closure (← c.compileWith simplify prepare))
  | .literal site c => do
    if c.compiled then return .literal site c
    prepare site.target
    let target ← Compile.entryOf site.target
    simplify (.literal site (← c.compileAs target simplify prepare))
  | .partialApply site target args => do
    let target ← target.compileWith simplify prepare
    simplify (.partialApply site target (← compileList simplify prepare args))
  | .call site args => do
    let args ← compileList simplify prepare args
    prepare site.target
    Compile.compileCall simplify site args
  | .dynamicCall site callee args => do
    let callee ← callee.compileWith simplify prepare
    simplify (.dynamicCall site callee (← compileList simplify prepare args))
termination_by structural x => x

def compileList (simplify : Expr → Compile Expr) (prepare : FuncId → Compile Unit) :
    List Expr → Compile (List Expr)
  | [] => return []
  | e :: es => do
    let e ← e.compileWith simplify prepare
    return e :: (← compileList simplify prepare es)
termination_by structural x => x

def Closure.compileWith (simplify : Expr → Compile Expr) (prepare : FuncId → Compile Unit) :
    Closure → Compile Closure
  | c@⟨_, _, body, _, _, _, captures, _, _, _⟩ =>
    c.compileParts (compileSupplies simplify prepare captures) (body.compileWith simplify prepare)
termination_by structural x => x

/-- Compiles the closure of a literal with the signature of its target. -/
def Closure.compileAs (target : Entry) (simplify : Expr → Compile Expr)
    (prepare : FuncId → Compile Unit) : Closure → Compile Closure
  | c@⟨_, _, body, _, _, _, captures, _, _, _⟩ =>
    (c.adaptTo target).compileParts (compileSupplies simplify prepare captures)
      (body.compileWith simplify prepare)
termination_by structural x => x

def compileSupplies (simplify : Expr → Compile Expr) (prepare : FuncId → Compile Unit) :
    List (VarId × Expr) → Compile (List (VarId × Expr))
  | [] => return []
  | (id, e) :: es => do
    let e ← e.compileWith simplify prepare
    return (id, e) :: (← compileSupplies simplify prepare es)
termination_by structural x => x
end

namespace Compile

/-- Records the outcome of compiling a body. -/
def finishFunction (id : FuncId) (scope : Scope) (result : Except QueryError Expr) :
    Compile Unit := do
  let options ← read
  match result with
  | .error e =>
    modifyRegistry (·.update id fun entry => { entry with scope, stage := .failed e })
    throw e
  | .ok body =>
    modifyRegistry (·.update id fun entry =>
      let body := keepTail options.tailCalls (body.coerce entry.declared entry.span)
      { entry with
        scope
        body := some body
        stage := .compiled
        flags := { body.flags with upd := entry.annotations.updating || body.has .upd }
        recursive := entry.recursive || body.uses id })

/-- Compiles the body of a function, unless that is done or going on. Each function is taken out of
the pending ones before its callees are, so `depth` need not exceed the number of functions. -/
def function (simplify : Expr → Compile Expr) : (depth : Nat) → FuncId → Compile Unit
  | 0, _ => fault .budget
  | depth + 1, id => do
    let entry ← entryOf id
    match entry.stage with
    | .compiled => return
    | .compiling => modifyRegistry (·.update id fun entry => { entry with recursive := true })
    | .failed e => throw e
    | .pending =>
      match entry.body with
      | none => throw (.resolution entry.name entry.arity none entry.firstCall)
      | some body =>
        modifyRegistry (·.update id fun entry =>
          { entry with stage := .compiling, body := none, scope := {} })
        let (result, scope) ← inScope entry.scope
          (body.compileWith simplify (function simplify depth))
        finishFunction id scope result

/-- Compiles one function and what it calls. -/
def registered (budget : Nat) (id : FuncId) : Compile Unit := do
  function (Expr.simplify budget) ((← get).registry.entries.length + 1) id

/-- Compiles an expression in the scope at hand, and all functions that it calls. -/
def expression (budget : Nat) (e : Expr) : Compile Expr := do
  let depth := (← get).registry.entries.length + 1
  e.compileWith (Expr.simplify budget) (function (Expr.simplify budget) depth)

/-- Compiles every function that is mentioned anywhere, then spreads their flags. -/
def mentioned (budget : Nat) : Compile Unit := do
  let entries := (← get).registry.entries.zipIdx.filter fun (e, _) => !e.calls.isEmpty && e.defined
  entries.forM fun (_, index) => registered budget ⟨index⟩
  modifyRegistry (·.propagateFlags)

end Compile

end QueryFunctions
