import QueryFunctions.Run.Context

/-! Built-in functions applied to values. How a function item is invoked is a parameter. -/
namespace QueryFunctions

/-- How a function item is called with arguments. -/
abbrev Invocation := FuncItem → List Value → Span → Run Value

namespace Builtin

def test (invoke : Invocation) (f : FuncItem) (span : Span) (v : Value) : Run Bool := do
  match ← invoke f [v] span with
  | .bool b => return b
  | other => throw (.booleanExpected other.typeName span)

def applyForEach (invoke : Invocation) (seq f : Value) (span : Span) : Run Value := do
  let f ← ofExcept (f.asFunc span)
  return .ofItems (← seq.items.mapM fun v => invoke f [v] span)

def applyFilter (invoke : Invocation) (seq f : Value) (span : Span) : Run Value := do
  let f ← ofExcept (f.asFunc span)
  return .ofItems (← seq.items.filterM (test invoke f span))

def applyFoldLeft (invoke : Invocation) (seq zero f : Value) (span : Span) : Run Value := do
  let f ← ofExcept (f.asFunc span)
  seq.items.foldlM (fun acc v => invoke f [acc, v] span) zero

def apply (invoke : Invocation) (b : Builtin) (args : List Value) (span : Span) : Run Value := do
  match b, args with
  | .forEach, [seq, f] => applyForEach invoke seq f span
  | .filter, [seq, f] => applyFilter invoke seq f span
  | .foldLeft, [seq, zero, f] => applyFoldLeft invoke seq zero f span
  | .functionArity, [f] => return .int (.ofNat (← ofExcept (f.asFunc span)).arity)
  | .functionName, [f] => return .ofName (← ofExcept (f.asFunc span))
  | .count, [seq] => return .int (.ofNat seq.items.length)
  | .random, [bound] => return .int (← Run.random (← ofExcept (bound.asInt span)))
  | .error, [v] => throw (.user v.text span)
  | .output, [v] => Run.addUpdate v; return .empty
  | _, _ => throw (.arity b.qualifiedName b.arity args.length span)

end Builtin

end QueryFunctions
