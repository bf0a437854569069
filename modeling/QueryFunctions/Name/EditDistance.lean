/-! The number of insertions, deletions and replacements that turn one list into another. Only one
row of the table of prefix distances is kept. -/
namespace QueryFunctions

namespace EditDistance

variable {α : Type} [DecidableEq α]

/-- The row of `a`, where `left` is its entry so far, `diagonal` the entry above that one and the
list pairs each further element with the entry above it. -/
def extendRow (a : α) : (diagonal left : Nat) → List (α × Nat) → List Nat
  | _, _, [] => []
  | diagonal, left, (b, above) :: rest =>
    let entry := min (min (above + 1) (left + 1)) (diagonal + if a = b then 0 else 1)
    entry :: extendRow a above entry rest

/-- The row after one more element `a`; `row` holds the distances to the prefixes of `bs`. -/
def nextRow (bs : List α) (row : List Nat) (a : α) : List Nat :=
  match row with
  | [] => []
  | corner :: above => (corner + 1) :: extendRow a corner (corner + 1) (bs.zip above)

/-- Distances of the empty list to all prefixes of a list of that length. -/
def firstRow (length : Nat) : List Nat := .range (length + 1)

theorem extendRow_length (a : α) (diagonal left : Nat) (rest : List (α × Nat)) :
    (extendRow a diagonal left rest).length = rest.length := by
  induction rest generalizing diagonal left with
  | nil => rfl
  | cons pair rest ih => simp [extendRow, ih]

theorem nextRow_length (bs : List α) (row : List Nat) (a : α)
    (h : row.length = bs.length + 1) : (nextRow bs row a).length = bs.length + 1 := by
  cases row with
  | nil => simp at h
  | cons corner above =>
    simp only [List.length_cons, Nat.add_right_cancel_iff] at h
    simp [nextRow, extendRow_length, h]

end EditDistance

/-- The edit distance of two lists: the last entry of the last row. -/
def editDistance {α : Type} [DecidableEq α] (as bs : List α) : Nat :=
  (as.foldl (EditDistance.nextRow bs) (EditDistance.firstRow bs.length)).getLastD 0

theorem editDistance_nil {α : Type} [DecidableEq α] (bs : List α) :
    editDistance [] bs = bs.length := by
  simp [editDistance, EditDistance.firstRow, List.range_succ]

end QueryFunctions
