import QueryFunctions.Supply
import QueryFunctions.SeqType.Basic

/-! Variables of one function body and the slots of its frame. A scoped variable gives its slot
back when its region closes, a pinned one keeps it; variables stay on record in either case. -/
namespace QueryFunctions

structure Variable where
  id : VarId
  name : String
  /-- The type that values bound to the variable must have. -/
  declared : Option SeqType
  /-- The type known statically. -/
  type : SeqType
  slot : Nat
  pinned : Bool
deriving DecidableEq, Repr

structure Scope where
  /-- In order of declaration. -/
  vars : List Variable := []
  /-- Which slots of the frame are taken. -/
  slots : List Bool := []
deriving DecidableEq, Repr, Inhabited

namespace Scope

def frameSize (s : Scope) : Nat := s.slots.length

def find? (s : Scope) (id : VarId) : Option Variable := s.vars.find? (·.id == id)

/-- The lowest free slot, or the one after the last. -/
def freeSlot (s : Scope) : Nat := s.slots.idxOf false

/-- The slots with one of them taken, which may be a new one at the end. -/
def takeSlot (slots : List Bool) (slot : Nat) : List Bool :=
  if slot < slots.length then slots.set slot true else slots ++ [true]

theorem takeSlot_length (slots : List Bool) (slot : Nat) :
    (takeSlot slots slot).length =
      if slot < slots.length then slots.length else slots.length + 1 := by
  unfold takeSlot
  split <;> simp

def add (s : Scope) (id : VarId) (name : String) (declared : Option SeqType) (pinned : Bool) :
    Scope where
  vars := s.vars ++ [⟨id, name, declared, declared.getD .item, s.freeSlot, pinned⟩]
  slots := takeSlot s.slots s.freeSlot

theorem freeSlot_lt_frameSize_add (s : Scope) (id : VarId) (name : String)
    (declared : Option SeqType) (pinned : Bool) :
    s.freeSlot < (s.add id name declared pinned).frameSize := by
  have bound : s.freeSlot ≤ s.slots.length := by
    unfold freeSlot
    exact List.idxOf_le_length
  simp only [frameSize, add, takeSlot_length]
  split <;> omega

/-- Adds a variable with a fresh identity. -/
def declare (s : Scope) (name : String) (declared : Option SeqType) (pinned : Bool) :
    StateM Supply (VarId × Scope) := do
  let id ← Supply.freshVar
  return (id, s.add id name declared pinned)

def openRegion (s : Scope) : Nat := s.vars.length

def closeRegion (s : Scope) (mark : Nat) : Scope :=
  let ended := (s.vars.drop mark).filter (!·.pinned)
  { s with slots := ended.foldl (fun slots v => slots.set v.slot false) s.slots }

theorem frameSize_closeRegion (s : Scope) (mark : Nat) :
    (s.closeRegion mark).frameSize = s.frameSize := by
  unfold closeRegion frameSize
  generalize (s.vars.drop mark).filter (!·.pinned) = ended
  have keeps : ∀ (vs : List Variable) (slots : List Bool),
      (vs.foldl (fun slots v => slots.set v.slot false) slots).length = slots.length := by
    intro vs
    induction vs with
    | nil => intro slots; rfl
    | cons v vs ih => intro slots; simp [ih]
  exact keeps ended s.slots

def update (s : Scope) (id : VarId) (f : Variable → Variable) : Scope :=
  { s with vars := s.vars.modify (s.vars.findIdx (·.id == id)) f }

/-- Narrows what is known of a variable. A declared type is never widened. -/
def refine (s : Scope) (id : VarId) (type : SeqType) : Scope :=
  s.update id fun v =>
    if v.declared.any (!type.instanceOf ·) then v else { v with type := type }

def setDeclared (s : Scope) (id : VarId) (declared : Option SeqType) : Scope :=
  s.update id fun v => { v with declared := declared, type := declared.getD .item }

def rename (s : Scope) (id : VarId) (name : String) : Scope :=
  s.update id fun v => { v with name := name }

/-- Equal variables in frames of equal size. Which slots are free right now does not count. -/
def same (s t : Scope) : Bool := s.vars == t.vars && s.frameSize == t.frameSize

theorem same_refl (s : Scope) : s.same s = true := by simp [same]

end Scope

end QueryFunctions
