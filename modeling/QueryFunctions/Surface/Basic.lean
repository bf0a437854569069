import QueryFunctions.Expr.Basic

/-! Queries as a parser hands them over: names are still names, and functions see the variables of
the functions around them. -/
namespace QueryFunctions

/-- A constant. A built-in function stands for a new item each time it is written. -/
inductive Datum where
  | int (value : Int64)
  | bool (value : Bool)
  | str (value : String)
  | seq (items : List Datum)
  | builtin (function : Builtin)
deriving Inhabited

/-- Name, parameters, result type and annotations of a function. -/
structure Signature where
  name : Option String := none
  params : List (String × Option SeqType) := []
  returns : Option SeqType := none
  annotations : Annotations := {}
deriving Inhabited

inductive Surface where
  | datum (value : Datum)
  | focus
  | var (name : String)
  | error (error : QueryError)
  | seq (items : List Surface)
  | arith (op : ArithOp) (lhs rhs : Surface)
  | compare (op : CompareOp) (lhs rhs : Surface)
  | branch (cond yes no : Surface)
  | treat (expr : Surface) (type : SeqType)
  | letIn (name : String) (value body : Surface)
  | call (name : String) (args : List Surface)
  /-- A built-in by itself; the number of its arguments is not checked. -/
  | builtin (function : Builtin) (args : List Surface)
  | dynamicCall (updating : Bool) (callee : Surface) (args : List Surface)
  | literal (name : String) (arity : Nat)
  /-- A named function with some arguments; the others are placeholders. -/
  | partialCall (name : String) (args : List (Option Surface))
  | partialApply (target : Surface) (args : List (Option Surface))
  /-- Supplied arguments, and the positions of placeholders, which may come in any order. -/
  | partialAt (target : Surface) (args : List Surface) (holes : List Nat)
  | function (signature : Signature) (body : Surface)
  /-- A function expression, some of whose captured variables are supplied otherwise. -/
  | supplied (function : Surface) (supplies : List (Option Surface))
  /-- A declaration of a registered function in the middle of an expression. -/
  | declare (signature : Signature) (body rest : Surface)
  /-- An expression at a place, which stays the current one until the next. -/
  | located (span : Span) (inner : Surface)
deriving Inhabited

end QueryFunctions
