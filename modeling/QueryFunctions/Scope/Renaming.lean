import QueryFunctions.Scope.Basic

/-! Variables for copied code. A copied scope keeps its layout under fresh identities; an adopted
one is declared anew, pinned, in the frame of another. Either way a renaming tells which variable
stands for which. -/
namespace QueryFunctions

/-- For each variable that was copied, the variable it was copied to. -/
structure Renaming where
  pairs : List (VarId × Variable) := []
deriving DecidableEq, Repr, Inhabited

namespace Renaming

def empty : Renaming := {}

def find? (r : Renaming) (old : VarId) : Option Variable :=
  (r.pairs.find? (·.1 == old)).map Prod.snd

/-- Maps `old` to `new`, whatever it was mapped to before. -/
def insert (r : Renaming) (old : VarId) (new : Variable) : Renaming :=
  ⟨(old, new) :: r.pairs.filter (·.1 != old)⟩

theorem find?_insert_self (r : Renaming) (old : VarId) (new : Variable) :
    (r.insert old new).find? old = some new := by simp [insert, find?]

/-- The variable that a copied one must have become. -/
def require (r : Renaming) (old : VarId) : Except Fault Variable :=
  match r.find? old with
  | some new => .ok new
  | none => .error (.uncopiedVariable old)

theorem require_eq_ok_iff {r : Renaming} {old : VarId} {new : Variable} :
    r.require old = .ok new ↔ r.find? old = some new := by
  unfold require
  cases r.find? old <;> simp

def size (r : Renaming) : Nat := r.pairs.length

end Renaming

namespace Scope

def copy (s : Scope) : StateM Supply (Scope × Renaming) := do
  let copied ← s.vars.mapM fun v => return { v with id := ← Supply.freshVar }
  let table := (s.vars.zip copied).foldl (fun r (v, new) => r.insert v.id new) .empty
  return ({ s with vars := copied }, table)

/-- Declares one variable of another scope in `target`. -/
def adopt (target : Scope) (v : Variable) : StateM Supply (Scope × Variable) := do
  let (id, target) ← target.declare v.name v.declared true
  let target := target.refine id v.type
  return (target, (target.find? id).getD v)

/-- Declares all variables of `s` in `target`, each in a slot that is free there. -/
def adoptInto (s target : Scope) : StateM Supply (Scope × Renaming) :=
  s.vars.foldlM (fun (target, table) v => do
    let (target, new) ← target.adopt v
    return (target, table.insert v.id new)) (target, .empty)

end Scope

end QueryFunctions
