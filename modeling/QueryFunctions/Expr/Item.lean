import QueryFunctions.Expr.Static

/-! Function items that arise while code is compiled or run: from a closure whose captured
variables have values, and from a function item some of whose arguments are supplied. -/
namespace QueryFunctions

namespace Closure

/-- The item of a closure; `captured` gives the values of captured variables. -/
def toItem (c : Closure) (captured : List (Variable × Value)) : StateM Supply FuncItem := do
  let id ← Supply.freshItem
  return {
    id
    origin := c.origin
    name := c.name
    type := c.funcType
    annotations := c.annotations
    span := c.span
    code := .closure c.paramVariables captured c.body c.scope }

end Closure

namespace PartialApplication

/-- The parameter types at the open positions. -/
def openTypes (params : List SeqType) (holes : List Nat) : Except Fault (List SeqType) :=
  holes.mapM fun hole =>
    match params[hole]? with
    | some type => .ok type
    | none => .error (.missingParameter hole)

/-- The type that is left of a function type when only `holes` stay open. -/
def openType (type : FuncType) (holes : List Nat) : Except Fault FuncType :=
  return { type with params := ← openTypes type.params holes }

/-- One pinned variable for each open position, named after the parameter if that has a name. -/
def openVariables (item : FuncItem) (scope : Scope) :
    (first : Nat) → (holes : List Nat) → StateM Supply Scope
  | _, [] => return scope
  | first, hole :: holes => do
    let name := (item.paramName? hole).getD s!"arg{first + 1}"
    let (_, scope) ← scope.declare name none true
    openVariables item scope (first + 1) holes

/-- The arguments from position `pos` on: a parameter where one is open, else the next of the
supplied ones. -/
def arrange (holes : List Nat) (params : List Expr) :
    (pos count : Nat) → (supplied : List Value) → List Expr
  | _, 0, _ => []
  | pos, count + 1, supplied =>
    match (holes.idxOf? pos).bind (params[·]?) with
    | some param => param :: arrange holes params (pos + 1) count supplied
    | none => .value (supplied.headD .empty) :: arrange holes params (pos + 1) count supplied.tail

theorem arrange_length (holes : List Nat) (params : List Expr) (pos count : Nat)
    (supplied : List Value) : (arrange holes params pos count supplied).length = count := by
  induction count generalizing pos supplied with
  | zero => rfl
  | succ count ih =>
    unfold arrange
    split <;> simp [ih]

/-- The item that takes the arguments at `holes` and calls `item` with them and the supplied ones,
all in their places. The call is a tail call and updating if `item` is. -/
def make (item : FuncItem) (supplied : List Value) (holes : List Nat) (span : Span) :
    Supplied FuncItem := do
  let scope ← liftSupply (openVariables item {} 0 holes)
  let params := scope.vars.map fun v => Expr.var ⟨v.id, v.slot, v.type, span⟩
  let args := arrange holes params 0 (supplied.length + holes.length) supplied
  let site : DynamicSite := ⟨item.isUpdating, true, [], span⟩
  let origin ← liftSupply Supply.freshOrigin
  let id ← liftSupply Supply.freshItem
  let type ← openType item.type holes
  return {
    id, origin, type, span
    name := none
    annotations := item.annotations
    code := .closure scope.vars [] (.dynamicCall site (.value (.func item)) args) scope }

end PartialApplication

end QueryFunctions
