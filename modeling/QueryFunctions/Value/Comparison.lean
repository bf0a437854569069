import QueryFunctions.Value.Basic

/-! Comparison of single atomic values of one type. Strings are ordered by code points, false
comes before true, and no comparison with an empty operand holds. -/
namespace QueryFunctions

namespace Value

def order (lhs rhs : Value) (span : Span) : Except QueryError Ordering :=
  match lhs, rhs with
  | .int a, .int b => .ok (compare a.toInt b.toInt)
  | .str a, .str b => .ok (compareOfLessAndEq a b)
  | .bool a, .bool b => .ok (compare a b)
  | .func _, _ | _, .func _ => .error (.functionsCompared span)
  | _, _ => .error (.cannotCompare lhs.typeName rhs.typeName span)

end Value

namespace CompareOp

def holds : CompareOp → Ordering → Bool
  | .eq, o => o == .eq
  | .ne, o => o != .eq
  | .lt, o => o == .lt
  | .le, o => o != .gt
  | .gt, o => o == .gt
  | .ge, o => o != .lt

def apply (op : CompareOp) (lhs rhs : Value) (span : Span) : Except QueryError Bool :=
  if lhs.isEmpty || rhs.isEmpty then .ok false
  else (lhs.order rhs span).map op.holds

theorem apply_empty_left (op : CompareOp) (rhs : Value) (span : Span) :
    op.apply .empty rhs span = .ok false := rfl

end CompareOp

end QueryFunctions
