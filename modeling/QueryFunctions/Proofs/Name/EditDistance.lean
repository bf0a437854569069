import QueryFunctions.Name.EditDistance

/-! What the edit distance is. It is told by recursion from the front, where both lists lose their
first element or one of them does. The same recursion holds at the back, and that is the step from
one row of the table to the next. -/
namespace QueryFunctions

variable {α : Type} [DecidableEq α]

/-- The distance by recursion: the first element of either list is dropped, or one stands for the
other, whichever costs least in all. -/
def levenshtein : List α → List α → Nat
  | [], bs => bs.length
  | as, [] => as.length
  | a :: as, b :: bs =>
    min (min (levenshtein as (b :: bs) + 1) (levenshtein (a :: as) bs + 1))
      (levenshtein as bs + if a = b then 0 else 1)
termination_by as bs => as.length + bs.length

namespace EditDistance

theorem levenshtein_nil (bs : List α) : levenshtein [] bs = bs.length := by rw [levenshtein]

theorem levenshtein_nil_right (as : List α) : levenshtein as [] = as.length := by
  cases as <;> simp [levenshtein]

theorem levenshtein_cons (a b : α) (as bs : List α) :
    levenshtein (a :: as) (b :: bs) =
      min (min (levenshtein as (b :: bs) + 1) (levenshtein (a :: as) bs + 1))
        (levenshtein as bs + if a = b then 0 else 1) := by rw [levenshtein]

theorem levenshtein_comm (as bs : List α) : levenshtein as bs = levenshtein bs as := by
  fun_induction levenshtein as bs with
  | case1 bs => rw [levenshtein_nil_right]
  | case2 as => rw [levenshtein_nil]
  | case3 a as b bs one other both =>
    rw [levenshtein_cons, one, other, both, Nat.min_comm (levenshtein _ as + 1)]
    simp only [eq_comm]

theorem levenshtein_singleton (a b : α) (bs : List α) :
    levenshtein [a] (bs ++ [b]) =
      min (min ((bs ++ [b]).length + 1) (levenshtein [a] bs + 1))
        (bs.length + if a = b then 0 else 1) := by
  induction bs with
  | nil => simp [levenshtein_cons, levenshtein_nil, levenshtein_nil_right]
  | cons b' bs ih =>
    simp only [List.cons_append, levenshtein_cons, levenshtein_nil, ih, List.length_cons,
      List.length_append, List.length_nil]
    omega

theorem levenshtein_concat (a b : α) (as bs : List α) :
    levenshtein (as ++ [a]) (bs ++ [b]) =
      min (min (levenshtein as (bs ++ [b]) + 1) (levenshtein (as ++ [a]) bs + 1))
        (levenshtein as bs + if a = b then 0 else 1) := by
  fun_induction levenshtein as bs with
  | case1 bs => simpa [levenshtein_nil] using levenshtein_singleton a b bs
  | case2 as =>
    rw [List.nil_append, levenshtein_comm, levenshtein_singleton, levenshtein_comm [b],
      levenshtein_nil_right, Nat.min_comm (_ + 1)]
    simp only [eq_comm]
  | case3 a' as b' bs one other both =>
    simp only [List.cons_append] at one other ⊢
    rw [levenshtein_cons, one, other, both, levenshtein_cons, levenshtein_cons]
    -- Nine ways to shorten the lists at both ends: the front comes first on the one side, the back
    -- on the other.
    simp only [← Nat.add_min_add_right]
    ac_rfl

/-- The distances of `as` to the lists that go on from `done` along `rest`. -/
def distances (as done : List α) : List α → List Nat
  | [] => []
  | b :: rest => levenshtein as (done ++ [b]) :: distances as (done ++ [b]) rest

/-- While a row is filled, the entry to the left belongs to the new row, and the diagonal and all that is
still above to the old one. -/
theorem extendRow_distances (a : α) (as done rest : List α) :
    extendRow a (levenshtein as done) (levenshtein (as ++ [a]) done)
      (rest.zip (distances as done rest)) = distances (as ++ [a]) done rest := by
  induction rest generalizing done with
  | nil => rfl
  | cons b rest ih =>
    simp only [distances, List.zip_cons_cons, extendRow, ← levenshtein_concat, ih]

def row (as bs : List α) : List Nat := levenshtein as [] :: distances as [] bs

theorem nextRow_row (a : α) (as bs : List α) : nextRow bs (row as bs) a = row (as ++ [a]) bs := by
  have corner : levenshtein as [] + 1 = levenshtein (as ++ [a]) [] := by
    simp [levenshtein_nil_right]
  simp only [row, nextRow, corner, extendRow_distances]

theorem distances_nil (done rest : List α) :
    distances [] done rest = List.range' (done.length + 1) rest.length := by
  induction rest generalizing done with
  | nil => rfl
  | cons b rest ih => simp [distances, levenshtein_nil, ih, List.range'_succ]

theorem firstRow_eq (bs : List α) : firstRow bs.length = row [] bs := by
  simp [firstRow, row, distances_nil, levenshtein_nil, List.range_eq_range', List.range'_succ]

theorem foldl_nextRow (as more bs : List α) :
    more.foldl (nextRow bs) (row as bs) = row (as ++ more) bs := by
  induction more generalizing as with
  | nil => simp
  | cons a more ih => simp [nextRow_row, ih]

theorem getLastD_distances (as done rest : List α) :
    (distances as done rest).getLastD (levenshtein as done) = levenshtein as (done ++ rest) := by
  induction rest generalizing done with
  | nil => simp [distances]
  | cons b rest ih => rw [distances, List.getLastD_cons, ih, List.append_assoc, List.singleton_append]

end EditDistance

open EditDistance in
theorem editDistance_eq_levenshtein (as bs : List α) : editDistance as bs = levenshtein as bs := by
  rw [editDistance, firstRow_eq, foldl_nextRow, row, List.getLastD_cons]
  exact getLastD_distances as [] bs

end QueryFunctions
