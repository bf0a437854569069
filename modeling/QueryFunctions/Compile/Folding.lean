import QueryFunctions.Value.Arithmetic
import QueryFunctions.Value.Comparison
import QueryFunctions.Expr.Static

/-! Local simplifications of an expression whose operands are compiled. An error that is bound to
happen becomes an error expression, so it is raised only if the expression is run. -/
namespace QueryFunctions

namespace Expr

/-- The result of an evaluation at compile time. -/
def ofResult : Except QueryError Value → Expr
  | .ok v => .value v
  | .error e => .error e

/-- Chooses a branch if the condition is a constant that has a boolean value. -/
def foldBranch (cond yes no : Expr) (span : Span) : Expr :=
  match cond with
  | .value v =>
    match v.ebv span with
    | .ok true => yes
    | .ok false => no
    | .error _ => .branch cond yes no span
  | _ => .branch cond yes no span

def foldArith (op : ArithOp) (lhs rhs : Expr) (span : Span) : Expr :=
  match lhs.value?, rhs.value? with
  | some l, some r => ofResult (op.apply l r span)
  | _, _ => .arith op lhs rhs span

def foldCompare (op : CompareOp) (lhs rhs : Expr) (span : Span) : Expr :=
  match lhs.value?, rhs.value? with
  | some l, some r => ofResult ((op.apply l r span).map .bool)
  | _, _ => .compare op lhs rhs span

def foldSeq (items : List Expr) : Expr :=
  match values? items with
  | some vs => .value (.ofItems vs)
  | none => .seq items

/-- Checks a constant at once, and drops a check that the static type makes needless. -/
def foldTreat (expr : Expr) (type : SeqType) (span : Span) : Expr :=
  match expr.value? with
  | some v => if type.accepts v then expr else .error (.cannotTreat v.typeName type span)
  | none => if expr.inferredType.instanceOf type then expr else .treat expr type span

/-- Counts constants and looks at constant functions. -/
def foldBuiltin (function : Builtin) (args : List Expr) (span : Span) : Expr :=
  match function, values? args with
  | .count, some [v] => .value (.int (.ofNat v.items.length))
  | .functionArity, some [v] => ofResult ((v.asFunc span).map fun f => .int (.ofNat f.arity))
  | .functionName, some [v] => ofResult ((v.asFunc span).map Value.ofName)
  | _, _ => .builtin function args span

/-- A body that is checked against the declared result type, unless its static type suffices. -/
def coerce (body : Expr) (declared : Option SeqType) (span : Span) : Expr :=
  match declared with
  | some type => if body.inferredType.instanceOf type then body else .treat body type span
  | none => body

theorem coerce_none (body : Expr) (span : Span) : body.coerce none span = body := rfl

end Expr

end QueryFunctions
