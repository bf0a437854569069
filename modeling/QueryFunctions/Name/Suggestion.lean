import QueryFunctions.Letter.Lower
import QueryFunctions.Name.EditDistance

/-! The name that a writer may have meant. Names are compared without their prefixes and without
regard to case, and only near ones are offered. -/
namespace QueryFunctions

namespace Name

/-- The part after the last colon. -/
def localPart (name : List Char) : List Char := (name.reverse.takeWhile (· != ':')).reverse

/-- What is compared of a name. -/
def key (name : String) : List Char := Letter.lowerCase (localPart name.toList)

/-- How far a suggestion may be from a key of that length. -/
def tolerance (length : Nat) : Nat :=
  if length ≤ 3 then 1 else if length ≤ 6 then 2 else max 3 (length / 3)

def distance (a b : String) : Nat := editDistance (key a) (key b)

/-- `a` is a better suggestion than `b`: nearer, or as near and earlier in the alphabet. -/
def better (a b : Nat × String) : Bool := a.1 < b.1 || (a.1 == b.1 && decide (a.2 < b.2))

/-- The better of the best suggestion so far and one more candidate. -/
def consider (target : String) (best : Option (Nat × String)) (candidate : String) :
    Option (Nat × String) :=
  let offer := (distance target candidate, candidate)
  if candidate = target || tolerance (key target).length < offer.1 then best
  else if best.all (better offer) then some offer
  else best

def closest? (target : String) (candidates : List String) : Option String :=
  (candidates.foldl (consider target) none).map Prod.snd

theorem closest?_nil (target : String) : closest? target [] = none := rfl

theorem consider_self (target : String) (best : Option (Nat × String)) :
    consider target best target = best := by simp [consider]

end Name

end QueryFunctions
