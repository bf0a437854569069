import QueryFunctions.Value.Basic

/-! Integer arithmetic of queries: exact results in 64 bits, or an error. Division goes toward zero
and a remainder has the sign of its dividend. -/
namespace QueryFunctions

/-- The word that holds an integer, if one does. -/
def word? (i : Int) : Option Int64 :=
  if Int64.minValue.toInt ≤ i ∧ i ≤ Int64.maxValue.toInt then some (.ofInt i) else none

namespace ArithOp

/-- The exact result for a divisor other than zero. -/
def exact : ArithOp → Int → Int → Int
  | .add, l, r => l + r
  | .sub, l, r => l - r
  | .mul, l, r => l * r
  | .idiv, l, r => l.tdiv r
  | .mod, l, r => l.tmod r

def divides : ArithOp → Bool
  | .idiv | .mod => true
  | _ => false

/-- A remainder overflows together with its quotient. -/
def bound : ArithOp → Int → Int → Int
  | .mod, l, r => l.tdiv r
  | op, l, r => op.exact l r

def words (op : ArithOp) (l r : Int64) (span : Span) : Except QueryError Int64 :=
  if op.divides && r == 0 then .error (.divisionByZero span)
  else match word? (op.bound l.toInt r.toInt) with
    | some _ => .ok (.ofInt (op.exact l.toInt r.toInt))
    | none => .error (.integerOverflow span)

/-- Arithmetic on values. An empty operand makes the result empty. -/
def apply (op : ArithOp) (lhs rhs : Value) (span : Span) : Except QueryError Value :=
  if lhs.isEmpty || rhs.isEmpty then .ok .empty
  else do
    let l ← lhs.asInt span
    let r ← rhs.asInt span
    return .int (← op.words l r span)

theorem apply_empty_left (op : ArithOp) (rhs : Value) (span : Span) :
    op.apply .empty rhs span = .ok .empty := rfl

end ArithOp

end QueryFunctions
