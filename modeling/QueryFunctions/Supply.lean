/-! Identities. One supply serves a whole query, so no two variables, closures or function items
of it share an identity, however often code is copied. -/
namespace QueryFunctions

structure VarId where
  index : Nat
deriving DecidableEq, Repr, Inhabited

/-- The place of a function in the registry. -/
structure FuncId where
  index : Nat
deriving DecidableEq, Repr, Inhabited

/-- What all copies of one closure have in common, and all items made from it. -/
structure Origin where
  index : Nat
deriving DecidableEq, Repr, Inhabited

/-- Two function items are the same item if and only if they have one identity. -/
structure ItemId where
  index : Nat
deriving DecidableEq, Repr, Inhabited

/-- The next unused identity of each kind. -/
structure Supply where
  nextVar : Nat := 0
  nextOrigin : Nat := 0
  nextItem : Nat := 0
deriving DecidableEq, Repr, Inhabited

namespace Supply

def freshVar : StateM Supply VarId :=
  modifyGet fun s => (⟨s.nextVar⟩, { s with nextVar := s.nextVar + 1 })

def freshOrigin : StateM Supply Origin :=
  modifyGet fun s => (⟨s.nextOrigin⟩, { s with nextOrigin := s.nextOrigin + 1 })

def freshItem : StateM Supply ItemId :=
  modifyGet fun s => (⟨s.nextItem⟩, { s with nextItem := s.nextItem + 1 })

theorem freshVar_run (s : Supply) :
    freshVar.run s = (⟨s.nextVar⟩, { s with nextVar := s.nextVar + 1 }) := rfl

end Supply

/-- Why a computation ends with neither a result nor a query error: its step budget is used up, or
code refers to something that is not there. Code made by the builder never does the latter. -/
inductive Fault where
  | budget
  | undeclaredVariable (id : VarId)
  | uncopiedVariable (id : VarId)
  | slotOutsideFrame (slot : Nat)
  | missingParameter (position : Nat)
  | missingFunction (id : FuncId)
deriving DecidableEq, Repr

/-- Computations that draw identities and may meet a fault. -/
abbrev Supplied := StateT Supply (Except Fault)

/-- Drawing identities alone meets no fault. -/
def liftSupply {α : Type} (draw : StateM Supply α) : Supplied α := fun s => .ok (draw.run s)

end QueryFunctions
