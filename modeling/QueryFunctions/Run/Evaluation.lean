import QueryFunctions.Expr.Item
import QueryFunctions.Value.Arithmetic
import QueryFunctions.Value.Comparison
import QueryFunctions.Run.Builtin

/-! Evaluation. A call pushes a frame, binds captured values and checked arguments to their slots,
and evaluates the body without a focus. A call in tail position is not made by the body but handed
back, and made after the frame is gone, so tail recursion needs no depth. A run may go on for ever,
so a budget bounds the calls that it makes in a row and in one another. -/
namespace QueryFunctions

/-- A call that is still to be made. -/
inductive PendingCall where
  | registered (target : FuncId) (args : List Value) (span : Span)
  /-- A function item that code calls. -/
  | item (item : FuncItem) (args : List Value) (span : Span)
  /-- A function item that a built-in was given, or that is called from outside. -/
  | callback (item : FuncItem) (args : List Value) (span : Span)

/-- What a function body ends with. -/
inductive Flow where
  | done (value : Value)
  | call (next : PendingCall)

namespace FuncItem

/-- Only updating calls may call updating functions and no others, unless the two may be mixed. -/
def checkUpdating (f : FuncItem) (updatingCall : Bool) (span : Span) : Run Unit := do
  if !(← read).options.mixedUpdates then
    if f.isUpdating && !updatingCall then throw (.updatingCallee f.text span)
    if !f.isUpdating && updatingCall then throw (.calleeNotUpdating f.text span)

end FuncItem

namespace DynamicSite

/-- The callee as a function that this call may make with `arity` arguments. -/
def callable (site : DynamicSite) (callee : Value) (arity : Nat) : Run FuncItem := do
  let f ← ofExcept (callee.asFunc site.span)
  if f.arity ≠ arity then throw (.arity f.text f.arity arity site.span)
  f.checkUpdating site.updating site.span
  return f

end DynamicSite

namespace PartialSite

def callable (site : PartialSite) (target : Value) (arity : Nat) : Run FuncItem := do
  let f ← ofExcept (target.asFunc site.span)
  if f.arity ≠ arity then throw (.arity f.text f.arity arity site.span)
  return f

end PartialSite

/-- How a call is made. -/
abbrev Caller := PendingCall → Run Value

def Caller.invoke (call : Caller) : Invocation := fun f args span => call (.callback f args span)

mutual
def Expr.evaluate (call : Caller) : Expr → Run Value
  | .value v => return v
  | .var ref => Run.get ref.slot
  | .letIn _ slot value body => do
    Run.set slot (← value.evaluate call)
    body.evaluate call
  | .branch cond yes no span => do
    if ← ofExcept ((← cond.evaluate call).ebv span) then yes.evaluate call else no.evaluate call
  | .arith op lhs rhs span => do
    let l ← lhs.evaluate call
    let r ← rhs.evaluate call
    ofExcept (op.apply l r span)
  | .compare op lhs rhs span => do
    let l ← lhs.evaluate call
    let r ← rhs.evaluate call
    return .bool (← ofExcept (op.apply l r span))
  | .seq items => return .ofItems (← evaluateList call items)
  | .focus span => Run.focus span
  | .treat expr type span => do
    let v ← expr.evaluate call
    if type.accepts v then return v else throw (.cannotTreat v.typeName type span)
  | .builtin function args span => do
    function.apply call.invoke (← evaluateList call args) span
  | .error e => throw e
  | .closure c | .literal _ c => return .func (← c.evaluate call)
  | .partialApply site target args => do
    let f ← site.callable (← target.evaluate call) (args.length + site.holes.length)
    let supplied ← evaluateList call args
    return .func (← Run.draw (PartialApplication.make f supplied site.holes site.span))
  | .call site args => do
    call (.registered site.target (← evaluateList call args) site.span)
  | .dynamicCall site callee args => do
    let f ← site.callable (← callee.evaluate call) args.length
    call (.item f (← evaluateList call args) site.span)
termination_by structural x => x

def evaluateList (call : Caller) : List Expr → Run (List Value)
  | [] => return []
  | e :: es => do
    let v ← e.evaluate call
    return v :: (← evaluateList call es)
termination_by structural x => x

def Closure.evaluate (call : Caller) : Closure → Run FuncItem
  | c@⟨_, _, _, _, _, scope, captures, _, _, _⟩ => do
    let captured ← evaluateSupplies call scope captures
    Run.draw (liftSupply (c.toItem captured))
termination_by structural x => x

def evaluateSupplies (call : Caller) (scope : Scope) :
    List (VarId × Expr) → Run (List (Variable × Value))
  | [] => return []
  | (id, e) :: es => do
    let v ← e.evaluate call
    let rest ← evaluateSupplies call scope es
    return match scope.find? id with
      | some captured => (captured, v) :: rest
      | none => rest
termination_by structural x => x
end

/-- Evaluates a function body, handing back the call in tail position. -/
def Expr.evaluateTail (call : Caller) : Expr → Run Flow
  | .branch cond yes no span => do
    if ← ofExcept ((← cond.evaluate call).ebv span) then yes.evaluateTail call
    else no.evaluateTail call
  | .letIn _ slot bound body => do
    Run.set slot (← bound.evaluate call)
    body.evaluateTail call
  | e@(.call site args) =>
    if site.tail then
      return .call (.registered site.target (← evaluateList call args) site.span)
    else return .done (← e.evaluate call)
  | e@(.dynamicCall site callee args) =>
    if site.tail then do
      let f ← site.callable (← callee.evaluate call) args.length
      return .call (.item f (← evaluateList call args) site.span)
    else return .done (← e.evaluate call)
  | e => return .done (← e.evaluate call)
termination_by structural x => x

namespace Run

/-- Puts arguments into the slots of parameters, checking declared types. -/
def bindParams (function : String) (span : Span) : List Variable → List Value → Run Unit
  | v :: vs, arg :: args => do
    match v.declared with
    | some type =>
      if !type.accepts arg then throw (.cannotPromote function arg.typeName type v.name span)
    | none => pure ()
    set v.slot arg
    bindParams function span vs args
  | _, _ => return

def bodyOf (target : FuncId) (span : Span) : Run (Entry × Expr) := do
  match (← read).registry.find? target with
  | none => fault (.missingFunction target)
  | some entry =>
    match entry.body, entry.stage with
    | some body, _ => return (entry, body)
    | none, .failed e => throw e
    | none, _ => throw (.resolution entry.name entry.arity none span)

/-- Makes the call of a function item up to the next call in tail position. -/
def stepItem (call : Caller) (f : FuncItem) (args : List Value) (span : Span) : Run Flow := do
  if args.length ≠ f.arity then throw (.arity f.text f.arity args.length span)
  match f.code with
  | .builtin b => return .done (← b.apply call.invoke args span)
  | .closure params captured body scope =>
    inFrame scope.frameSize do
      captured.forM fun (v, value) => set v.slot value
      bindParams f.text span params args
      withoutFocus (body.evaluateTail call)

/-- Makes a call up to the next call in tail position. -/
def step (call : Caller) : PendingCall → Run Flow
  | .registered target args span => do
    let (entry, body) ← bodyOf target span
    inFrame entry.scope.frameSize do
      bindParams s!"{entry.name}#{entry.arity}" span entry.paramVariables args
      withoutFocus (body.evaluateTail call)
  | .item f args span => stepItem call f args span
  | .callback f args span => stepItem call f args span

/-- Makes a call and all calls handed back, at the present depth. -/
def loop : (budget : Nat) → PendingCall → Run Value
  | 0, _ => fault .budget
  | budget + 1, next => do
    checkInterrupt
    match ← step (fun inner => nested (loop budget inner)) next with
    | .done v => return v
    | .call next => loop budget next

/-- Makes a call one level deeper. -/
def call (budget : Nat) : Caller := fun next => nested (loop budget next)

def evaluate (budget : Nat) (e : Expr) : Run Value := e.evaluate (call budget)

def invoke (budget : Nat) : Invocation := (call budget).invoke

/-- Calls a function item whose result is to be one item or none. -/
def invokeSingle (budget : Nat) (f : FuncItem) (args : List Value) (span : Span) : Run Value := do
  let v ← invoke budget f args span
  if 1 < v.items.length then throw (.singleItemExpected f.text v.items.length span)
  return v

end Run

end QueryFunctions
