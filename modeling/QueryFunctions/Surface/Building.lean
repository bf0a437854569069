import QueryFunctions.Expr.Item
import QueryFunctions.Registry.Resolution
import QueryFunctions.Surface.Basic
import QueryFunctions.Surface.Scoping

/-! Expressions from surface queries. Operands are built left to right and the first error ends the
building of an expression, but what was built before it remains in the registry and in the scopes.
Nodes are marked with the current place. -/
namespace QueryFunctions

structure BuildState where
  supply : Supply := {}
  registry : Registry := {}
  /-- The frame of the function body at hand. -/
  frame : Frame := {}
  /-- The frames around it, innermost first. -/
  outer : List Frame := []
  span : Span := .synthetic

abbrev Build := ExceptT QueryError (ExceptT Fault (StateM BuildState))

mutual
def Datum.toValue : Datum → StateM Supply Value
  | .int i => return .int i
  | .bool b => return .bool b
  | .str s => return .str s
  | .seq items => return .ofItems (← Datum.toValues items)
  | .builtin b => return .func (← FuncItem.ofBuiltin b)
termination_by structural x => x

def Datum.toValues : List Datum → StateM Supply (List Value)
  | [] => return []
  | d :: ds => do
    let v ← d.toValue
    return v :: (← Datum.toValues ds)
termination_by structural x => x
end

namespace Build

variable {α : Type}

def outcome (act : Build α) (state : BuildState) :
    Except Fault (Except QueryError α) × BuildState := act state

def fault (f : Fault) : Build α := fun s => (.error f, s)

def draw (act : StateM Supply α) : Build α := modifyGet fun s =>
  let (a, supply) := act.run s.supply
  (a, { s with supply })

def ofFaulty : Except Fault α → Build α
  | .ok a => return a
  | .error f => fault f

def attempt (act : Build α) : Build (Except QueryError α) := fun s =>
  let (result, s) := act s
  (result.map .ok, s)

def moveTo (span : Span) : Build Unit := modify fun s => { s with span }

/-- Moves to a place of the node's own, if it has one. -/
def moveBack : Option Span → Build Unit
  | some span => moveTo span
  | none => return

def modifyRegistry (f : Registry → α × Registry) : Build α := modifyGet fun s =>
  let (a, registry) := f s.registry
  (a, { s with registry })

def reference (name : String) : Build Expr := do
  let s ← get
  match ← draw (s.frame.resolve name s.outer) with
  | none => throw (.unknownVariable name s.span)
  | some (id, frame, outer) =>
    modify fun s => { s with frame, outer }
    ofFaulty (Expr.varRef frame.scope id s.span)

/-- A let whose body is built by `body`. Its name is gone afterwards in any case. -/
def letIn (name : String) (value : Expr) (body : Build Expr) : Build Expr := do
  let mark := (← get).frame.scope.openRegion
  let (id, frame) ← draw ((← get).frame.openLet name)
  modify fun s => { s with frame }
  let result ← attempt body
  modify fun s => { s with frame := s.frame.closeLet mark }
  let slot := ((frame.scope.find? id).map (·.slot)).getD 0
  return .letIn id slot value (← ofExcept result)

def paramFrame (signature : Signature) (capturing : Bool) : StateM Supply (List VarId × Frame) :=
  signature.params.foldlM (fun (ids, frame) (name, type) => do
    let (id, frame) ← frame.addParam name type
    return (ids ++ [id], frame)) ([], { capturing })

/-- Builds a function body in a frame of its own, which is given back with parameters and body. -/
def inFunction (signature : Signature) (capturing : Bool) (body : Build Expr) :
    Build (List VarId × Frame × Expr) := do
  let (params, frame) ← draw (paramFrame signature capturing)
  modify fun s => { s with frame, outer := s.frame :: s.outer }
  let result ← attempt body
  let inner := (← get).frame
  modify fun s => { s with frame := s.outer.headD {}, outer := s.outer.tail }
  return (params, inner, ← ofExcept result)

def function (signature : Signature) (body : Build Expr) : Build Expr := do
  let span := (← get).span
  let (params, inner, body) ← inFunction signature true body
  let scope := (← get).frame.scope
  let captures ← inner.captures.mapM fun (id, outer) =>
    return (id, ← ofFaulty (Expr.varRef scope outer span))
  let origin ← draw Supply.freshOrigin
  return .closure {
    name := signature.name
    declared := signature.returns
    annotations := signature.annotations
    scope := inner.scope
    compiled := false
    params, body, captures, origin, span }

/-- Declares a registered function, whose body sees no variables from outside. -/
def declare (signature : Signature) (body : Build Expr) : Build FuncId := do
  let span := (← get).span
  match signature.name with
  | none => throw .namelessDeclaration
  | some name =>
    let (params, inner, body) ← inFunction signature false body
    ofExcept (← modifyRegistry (·.declare {
      declared := signature.returns
      annotations := signature.annotations
      scope := inner.scope
      name, params, body, span }))

def call (name : String) (args : List Expr) : Build Expr := do
  let span := (← get).span
  ofExcept (← modifyRegistry (·.resolveCall name args span))

def literal (name : String) (arity : Nat) : Build Expr := do
  let s ← get
  let (result, registry) ← draw (s.registry.resolveLiteral name arity s.span)
  modify fun s => { s with registry }
  ofExcept result

def holes (args : List (Option Expr)) : List Nat :=
  args.zipIdx.filterMap fun (arg, position) => if arg.isNone then some position else none

def partialApply (target : Expr) (args : List (Option Expr)) : Build Expr := do
  return .partialApply ⟨holes args, none, (← get).span⟩ target (args.filterMap id)

/-- A closure with other supplying expressions where some are given. -/
def resupply (function : Expr) (supplies : List (Option Expr)) : Expr :=
  match function with
  | .closure c =>
    let given := supplies ++ .replicate c.captures.length none
    .closure { c with captures := (c.captures.zip given).map fun ((id, old), new) =>
      (id, new.getD old) }
  | e => e

end Build

mutual
/-- Builds an expression. A node that has operands and a place `own` is moved back to that place
when the operands are done. -/
def Surface.build (own : Option Span) : Surface → Build Expr
  | .datum d => return .value (← Build.draw d.toValue)
  | .focus => return .focus (← get).span
  | .var name => Build.reference name
  | .error e => return .error e
  | .seq items => return .seq (← buildList items)
  | .arith op lhs rhs => do
    let lhs ← lhs.build none
    let rhs ← rhs.build none
    Build.moveBack own
    return .arith op lhs rhs (← get).span
  | .compare op lhs rhs => do
    let lhs ← lhs.build none
    let rhs ← rhs.build none
    Build.moveBack own
    return .compare op lhs rhs (← get).span
  | .branch cond yes no => do
    let cond ← cond.build none
    let yes ← yes.build none
    let no ← no.build none
    Build.moveBack own
    return .branch cond yes no (← get).span
  | .treat expr type => do
    let expr ← expr.build none
    Build.moveBack own
    return .treat expr type (← get).span
  | .letIn name value body => do
    let value ← value.build none
    Build.letIn name value (body.build none)
  | .call name args => do
    let args ← buildList args
    Build.moveBack own
    Build.call name args
  | .builtin function args => do
    let args ← buildList args
    Build.moveBack own
    return .builtin function args (← get).span
  | .dynamicCall updating callee args => do
    let callee ← callee.build none
    let args ← buildList args
    Build.moveBack own
    return .dynamicCall ⟨updating, false, [], (← get).span⟩ callee args
  | .literal name arity => Build.literal name arity
  | .partialCall name args => do
    let args ← buildOptions args
    Build.moveBack own
    let target ← Build.literal name args.length
    Build.partialApply target args
  | .partialApply target args => do
    let target ← target.build none
    let args ← buildOptions args
    Build.moveBack own
    Build.partialApply target args
  | .partialAt target args holes => do
    let target ← target.build none
    let args ← buildList args
    return .partialApply ⟨holes, none, own.getD .synthetic⟩ target args
  | .function signature body => Build.function signature (body.build none)
  | .supplied function supplies => do
    let function ← function.build none
    return Build.resupply function (← buildOptions supplies)
  | .declare signature body rest => do
    discard (Build.declare signature (body.build none))
    rest.build none
  | .located span inner => do
    Build.moveTo span
    inner.build (some span)
termination_by structural x => x

def buildList : List Surface → Build (List Expr)
  | [] => return []
  | s :: ss => do
    let e ← s.build none
    return e :: (← buildList ss)
termination_by structural x => x

def buildOption : Option Surface → Build (Option Expr)
  | none => return none
  | some s => return some (← s.build none)
termination_by structural x => x

def buildOptions : List (Option Surface) → Build (List (Option Expr))
  | [] => return []
  | o :: os => do
    let e ← buildOption o
    return e :: (← buildOptions os)
termination_by structural x => x
end

end QueryFunctions
