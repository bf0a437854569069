import QueryFunctions.Builtin.Basic
import QueryFunctions.QueryError.Basic
import QueryFunctions.Scope.Basic

/-! Expressions and values. They are defined together: a function item holds the body of its
function, and compiled code holds values. What a node knows besides its operands is kept in a
record of its own. -/
namespace QueryFunctions

structure Annotations where
  updating : Bool := false
  /-- An inlining limit of the function's own. -/
  inlineLimit : Option Nat := none
deriving DecidableEq, Repr, Inhabited

inductive ArithOp where
  | add | sub | mul | idiv | mod
deriving DecidableEq, Repr

inductive CompareOp where
  | eq | ne | lt | le | gt | ge
deriving DecidableEq, Repr

/-- A reference to a variable, with its slot and what is known of its type. -/
structure VarRef where
  id : VarId
  slot : Nat
  type : SeqType
  span : Span
deriving DecidableEq, Repr

structure CallSite where
  name : String
  target : FuncId
  /-- In tail position of a function body. -/
  tail : Bool
  /-- The result type, known once the target is compiled. -/
  type : SeqType
  /-- Properties of the target. -/
  flags : Flags
  span : Span
deriving DecidableEq, Repr

structure DynamicSite where
  updating : Bool
  tail : Bool
  /-- The closures whose expansion led to this call. -/
  inlinedFrom : List Origin
  span : Span
deriving DecidableEq, Repr

structure PartialSite where
  /-- The argument positions that are left open. -/
  holes : List Nat
  /-- The type of the resulting function, once the target's type is known. -/
  type : Option FuncType
  span : Span
deriving DecidableEq, Repr

structure LiteralSite where
  name : String
  target : FuncId
  span : Span
deriving DecidableEq, Repr

mutual
inductive Value where
  | int (value : Int64)
  | bool (value : Bool)
  | str (value : String)
  | seq (items : List Value)
  | func (item : FuncItem)

/-- A function at run time. -/
structure FuncItem where
  id : ItemId
  /-- The origin of the closure that the item was made from. -/
  origin : Origin
  name : Option String
  type : FuncType
  annotations : Annotations
  span : Span
  code : Code

inductive Code where
  | builtin (function : Builtin)
  | closure (params : List Variable) (captured : List (Variable × Value)) (body : Expr)
      (scope : Scope)

inductive Expr where
  | value (value : Value)
  | var (ref : VarRef)
  | letIn (id : VarId) (slot : Nat) (value body : Expr)
  | branch (cond yes no : Expr) (span : Span)
  | arith (op : ArithOp) (lhs rhs : Expr) (span : Span)
  | compare (op : CompareOp) (lhs rhs : Expr) (span : Span)
  | seq (items : List Expr)
  | focus (span : Span)
  | treat (expr : Expr) (type : SeqType) (span : Span)
  | builtin (function : Builtin) (args : List Expr) (span : Span)
  /-- An error that is raised only when it is evaluated. -/
  | error (error : QueryError)
  | closure (closure : Closure)
  | literal (site : LiteralSite) (closure : Closure)
  | partialApply (site : PartialSite) (target : Expr) (args : List Expr)
  | call (site : CallSite) (args : List Expr)
  | dynamicCall (site : DynamicSite) (callee : Expr) (args : List Expr)

/-- A function expression. Variables of enclosing functions that its body uses are captured: each
is a pinned variable of `scope`, supplied by an expression of the enclosing function. -/
structure Closure where
  name : Option String
  params : List VarId
  body : Expr
  /-- The declared result type. -/
  declared : Option SeqType
  annotations : Annotations
  scope : Scope
  captures : List (VarId × Expr)
  origin : Origin
  compiled : Bool
  span : Span
end

namespace Value

def empty : Value := .seq []

instance : Inhabited Value := ⟨empty⟩

end Value

namespace Expr

def empty : Expr := .value .empty

instance : Inhabited Expr := ⟨empty⟩

def isValue : Expr → Bool
  | .value _ => true
  | _ => false

def value? : Expr → Option Value
  | .value v => some v
  | _ => none

/-- Substituting such an expression for a variable neither repeats nor drops work. -/
def isAtom : Expr → Bool
  | .value _ | .var _ => true
  | _ => false

/-- The values of a list of expressions, if all of them are constants. -/
def values? (es : List Expr) : Option (List Value) := es.mapM value?

/-- A reference to a variable of `scope`. -/
def varRef (scope : Scope) (id : VarId) (span : Span) : Except Fault Expr :=
  match scope.find? id with
  | some v => .ok (.var ⟨id, v.slot, v.type, span⟩)
  | none => .error (.undeclaredVariable id)

theorem isValue_eq_isSome (e : Expr) : e.isValue = e.value?.isSome := by cases e <;> rfl

end Expr

namespace Code

def paramName? : Code → Nat → Option String
  | .builtin _, _ => none
  | .closure params _ _ _, position => params[position]?.map (·.name)

end Code

namespace FuncItem

def arity (f : FuncItem) : Nat := f.type.arity

def isUpdating (f : FuncItem) : Bool := f.annotations.updating

def paramName? (f : FuncItem) (position : Nat) : Option String := f.code.paramName? position

def text (f : FuncItem) : String := f.name.getD "(anonymous-function)" ++ s!"#{f.arity}"

/-- A built-in function as a value of its own. -/
def ofBuiltin (b : Builtin) : StateM Supply FuncItem := do
  let origin ← Supply.freshOrigin
  let id ← Supply.freshItem
  return {
    id, origin
    name := some b.qualifiedName
    type := b.funcType
    annotations := { updating := b.flags.upd }
    span := .synthetic
    code := .builtin b }

end FuncItem

namespace Closure

def arity (c : Closure) : Nat := c.params.length

def paramVariables (c : Closure) : List Variable := c.params.filterMap c.scope.find?

end Closure

end QueryFunctions
