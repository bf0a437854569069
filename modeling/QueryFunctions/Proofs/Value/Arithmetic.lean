import Mathlib.Tactic.Linarith
import Mathlib.Data.Int.Order.Basic
import QueryFunctions.Value.Arithmetic

/-! Integer arithmetic is exact: what the operations mean is told on the integers, quotient and
remainder by the division they belong to, and compared with what they return in 64 bits. The two
agree but for the remainder of the least integer by -1, which is 0 and is reported as an overflow
because its quotient is one. -/
namespace QueryFunctions

def Fits (x : Int) : Prop := -2 ^ 63 ≤ x ∧ x < 2 ^ 63

instance (x : Int) : Decidable (Fits x) := inferInstanceAs (Decidable (_ ∧ _))

theorem fits_toInt (w : Int64) : Fits w.toInt := ⟨w.le_toInt, w.toInt_lt⟩

theorem toInt_ofInt_of_fits {x : Int} (fits : Fits x) : (Int64.ofInt x).toInt = x :=
  Int64.toInt_ofInt_of_le fits.1 fits.2

theorem word?_eq_none_iff {x : Int} : word? x = none ↔ ¬Fits x := by
  have low : Int64.minValue.toInt = -2 ^ 63 := rfl
  have high : Int64.maxValue.toInt = 2 ^ 63 - 1 := rfl
  unfold word? Fits
  split <;> simp only [reduceCtorEq, true_iff, false_iff] <;> omega

/-- A quotient toward zero and a remainder with the sign of the dividend. -/
structure Splits (l r quotient remainder : Int) : Prop where
  whole : l = quotient * r + remainder
  small : remainder.natAbs < r.natAbs
  nonneg : 0 ≤ l → 0 ≤ remainder
  nonpos : l ≤ 0 → remainder ≤ 0

namespace Splits

variable {l r q m : Int}

theorem divisor_ne_zero (splits : Splits l r q m) : r ≠ 0 := by
  have := splits.small
  omega

theorem truncated (nonzero : r ≠ 0) : Splits l r (l.tdiv r) (l.tmod r) where
  whole := (Int.tdiv_mul_add_tmod l r).symm
  small := by
    rw [Int.natAbs_tmod]
    exact Nat.mod_lt _ (by omega)
  nonneg low := Int.tmod_nonneg r low
  nonpos high := by
    have := Int.tmod_nonneg r (Int.neg_nonneg_of_nonpos high)
    rw [Int.neg_tmod] at this
    omega

theorem remainder_unique {q' m' : Int} (splits : Splits l r q m) (other : Splits l r q' m') :
    m = m' := by
  have multiple : r ∣ m - m' := ⟨q' - q, by linarith [splits.whole, other.whole]⟩
  have near : (m - m').natAbs < r.natAbs := by
    have := splits.small
    have := other.small
    rcases le_total 0 l with low | high
    · have := splits.nonneg low
      have := other.nonneg low
      omega
    · have := splits.nonpos high
      have := other.nonpos high
      omega
  have := Int.eq_zero_of_dvd_of_natAbs_lt_natAbs multiple near
  omega

theorem quotient_unique {q' m' : Int} (splits : Splits l r q m) (other : Splits l r q' m') :
    q = q' := by
  have same := splits.remainder_unique other
  have : q * r = q' * r := by linarith [splits.whole, other.whole]
  exact Int.eq_of_mul_eq_mul_right splits.divisor_ne_zero this

end Splits

/-- A quotient is no longer than its dividend, so it can only leave the range at the far end. -/
theorem fits_tdiv_iff {l r : Int} (fits : Fits l) (nonzero : r ≠ 0) :
    Fits (l.tdiv r) ↔ ¬(l = -2 ^ 63 ∧ r = -1) := by
  have smaller : (l.tdiv r).natAbs ≤ l.natAbs := Int.natAbs_tdiv_le_natAbs l r
  obtain ⟨whole, small, -, nonpos⟩ := Splits.truncated (l := l) nonzero
  unfold Fits at *
  by_cases far : l.tdiv r = 2 ^ 63
  · rw [far] at whole
    omega
  · have : ¬(l = -2 ^ 63 ∧ r = -1) := by
      rintro ⟨rfl, rfl⟩
      exact far (by decide)
    omega

theorem fits_tmod {l r : Int} (fits : Fits l) (nonzero : r ≠ 0) : Fits (l.tmod r) := by
  have smaller : (l.tmod r).natAbs ≤ l.natAbs := by
    rw [Int.natAbs_tmod]
    exact Nat.mod_le ..
  obtain ⟨-, -, nonneg, nonpos⟩ := Splits.truncated (l := l) nonzero
  unfold Fits at *
  omega

theorem Value.isEmpty_eq_false {v : Value} (present : v ≠ .empty) : v.isEmpty = false := by
  unfold isEmpty
  split
  · exact absurd rfl present
  · rfl

theorem Value.asInt_eq_error {v : Value} {span : Span} (other : ∀ i, v ≠ .int i) :
    v.asInt span = .error (.integerExpected v.typeName span) := by
  unfold asInt
  split
  · exact absurd rfl (other _)
  · rfl

namespace ArithOp

variable {op : ArithOp}

/-- The exact results of an operation, of which there is at most one. -/
def Denotes : ArithOp → Int → Int → Int → Prop
  | .add, l, r, x => x = l + r
  | .sub, l, r, x => x = l - r
  | .mul, l, r, x => x = l * r
  | .idiv, l, r, x => ∃ remainder, Splits l r x remainder
  | .mod, l, r, x => ∃ quotient, Splits l r quotient x

theorem divides_iff : op.divides = true ↔ op = .idiv ∨ op = .mod := by
  cases op <;> simp [divides]

theorem denotes_iff {l r x : Int} :
    op.Denotes l r x ↔ ¬(op.divides = true ∧ r = 0) ∧ x = op.exact l r := by
  cases op with
  | add | sub | mul => simp [Denotes, divides, exact]
  | idiv =>
    constructor
    · rintro ⟨m, splits⟩
      have nonzero := splits.divisor_ne_zero
      exact ⟨by simp [nonzero], splits.quotient_unique (.truncated nonzero)⟩
    · rintro ⟨possible, rfl⟩
      exact ⟨_, .truncated fun zero => possible ⟨rfl, zero⟩⟩
  | mod =>
    constructor
    · rintro ⟨q, splits⟩
      have nonzero := splits.divisor_ne_zero
      exact ⟨by simp [nonzero], splits.remainder_unique (.truncated nonzero)⟩
    · rintro ⟨possible, rfl⟩
      exact ⟨_, .truncated fun zero => possible ⟨rfl, zero⟩⟩

theorem existsUnique_denotes_iff {l r : Int} :
    (∃! x, op.Denotes l r x) ↔ ¬((op = .idiv ∨ op = .mod) ∧ r = 0) := by
  simp only [denotes_iff, divides_iff]
  constructor
  · rintro ⟨x, ⟨possible, -⟩, -⟩
    exact possible
  · intro possible
    exact ⟨_, ⟨possible, rfl⟩, fun x result => result.2⟩

theorem fits_bound_iff {l r : Int} (fits : Fits l) (possible : ¬(op.divides = true ∧ r = 0)) :
    Fits (op.bound l r) ↔ Fits (op.exact l r) ∧ ¬(op = .mod ∧ l = -2 ^ 63 ∧ r = -1) := by
  cases op with
  | add | sub | mul | idiv => simp [bound]
  | mod =>
    have nonzero : r ≠ 0 := fun zero => possible ⟨rfl, zero⟩
    simp [bound, exact, fits_tdiv_iff fits nonzero, fits_tmod fits nonzero]

/-- What an operation returns for two integers is its exact result, and an error tells why there is
none in 64 bits. -/
structure ExactAt (op : ArithOp) (l r : Int64) (span : Span) : Prop where
  value : ∀ v, op.apply (.int l) (.int r) span = .ok v ↔
    ∃ w : Int64, op.Denotes l.toInt r.toInt w.toInt ∧ v = .int w
  zero : op.apply (.int l) (.int r) span = .error (.divisionByZero span) ↔
    (op = .idiv ∨ op = .mod) ∧ r = 0
  overflow : op.apply (.int l) (.int r) span = .error (.integerOverflow span) ↔
    ∃ x, op.Denotes l.toInt r.toInt x ∧ ¬Fits x

section Integers

variable {l r : Int64} {span : Span}

theorem toInt_eq_zero_iff : r.toInt = 0 ↔ r = 0 := by
  rw [← Int64.toInt_zero, Int64.toInt_inj]

theorem apply_int :
    op.apply (.int l) (.int r) span =
      if op.divides = true ∧ r = 0 then .error (.divisionByZero span)
      else if Fits (op.bound l.toInt r.toInt) then
        .ok (.int (.ofInt (op.exact l.toInt r.toInt)))
      else .error (.integerOverflow span) := by
  have words : op.apply (.int l) (.int r) span = (op.words l r span).map .int := by
    cases result : op.words l r span <;> simp [apply, Value.isEmpty, Value.asInt, result, bind,
      Except.bind, Except.map, pure, Except.pure]
  rw [words, ArithOp.words]
  simp only [Bool.and_eq_true, beq_iff_eq]
  split
  · rfl
  · cases word : word? (op.bound l.toInt r.toInt) with
    | none => simp [word?_eq_none_iff.mp word, Except.map]
    | some w =>
      have fits : Fits (op.bound l.toInt r.toInt) := by
        by_contra large
        simp [word?_eq_none_iff.mpr large] at word
      simp [fits, Except.map]

theorem denotes_toInt_iff {x : Int} :
    op.Denotes l.toInt r.toInt x ↔
      ¬(op.divides = true ∧ r = 0) ∧ x = op.exact l.toInt r.toInt := by
  rw [denotes_iff, toInt_eq_zero_iff]

theorem fits_bound_toInt_iff (possible : ¬(op.divides = true ∧ r = 0)) :
    Fits (op.bound l.toInt r.toInt) ↔
      Fits (op.exact l.toInt r.toInt) ∧ ¬(op = .mod ∧ l = .minValue ∧ r = -1) := by
  rw [fits_bound_iff (fits_toInt l) (by rwa [toInt_eq_zero_iff]), ← Int64.toInt_inj,
    ← Int64.toInt_inj (y := -1)]
  rfl

theorem exactAt_of_zero (impossible : op.divides = true ∧ r = 0) : op.ExactAt l r span := by
  have undefined : ∀ x, ¬op.Denotes l.toInt r.toInt x := fun x denotes =>
    (denotes_toInt_iff.mp denotes).1 impossible
  have result : op.apply (.int l) (.int r) span = .error (.divisionByZero span) := by
    rw [apply_int, if_pos impossible]
  refine ⟨fun v => ?_, ?_, ?_⟩
  · simp [result, undefined]
  · exact iff_of_true result (impossible.imp_left divides_iff.mp)
  · simp [result, undefined, QueryError.divisionByZero, QueryError.integerOverflow]

theorem exactAt_of_fits (possible : ¬(op.divides = true ∧ r = 0))
    (fits : Fits (op.bound l.toInt r.toInt)) : op.ExactAt l r span := by
  have exact : Fits (op.exact l.toInt r.toInt) := ((fits_bound_toInt_iff possible).mp fits).1
  refine ⟨fun v => ?_, ?_, ?_⟩
  · simp only [apply_int, denotes_toInt_iff, if_neg possible, if_pos fits, Except.ok.injEq]
    constructor
    · rintro rfl
      exact ⟨_, ⟨possible, toInt_ofInt_of_fits exact⟩, rfl⟩
    · rintro ⟨w, ⟨-, result⟩, rfl⟩
      rw [← result, Int64.ofInt_toInt]
  · simp [apply_int, ← divides_iff, possible, fits]
  · simp [apply_int, denotes_toInt_iff, possible, fits, exact]

theorem exactAt_overflow_iff (possible : ¬(op.divides = true ∧ r = 0))
    (large : ¬Fits (op.bound l.toInt r.toInt)) :
    op.ExactAt l r span ↔ ¬Fits (op.exact l.toInt r.toInt) := by
  have result : op.apply (.int l) (.int r) span = .error (.integerOverflow span) := by
    simp [apply_int, possible, large]
  constructor
  · intro exact
    obtain ⟨x, denotes, unfit⟩ := exact.overflow.mp result
    rwa [← (denotes_toInt_iff.mp denotes).2]
  · intro unfit
    refine ⟨fun v => ?_, ?_, ?_⟩
    · simp only [result, denotes_toInt_iff, reduceCtorEq, false_iff]
      rintro ⟨w, ⟨-, same⟩, -⟩
      exact unfit (same ▸ fits_toInt w)
    · simp [result, ← divides_iff, possible, QueryError.divisionByZero,
        QueryError.integerOverflow]
    · simp [result, denotes_toInt_iff, possible, unfit]

theorem exactAt_iff :
    op.ExactAt l r span ↔ ¬(op = .mod ∧ l = .minValue ∧ r = -1) := by
  by_cases impossible : op.divides = true ∧ r = 0
  · have : ¬(op = .mod ∧ l = .minValue ∧ r = -1) := by
      rintro ⟨-, -, rfl⟩
      exact absurd impossible.2 (by decide)
    simp [exactAt_of_zero impossible, this]
  by_cases fits : Fits (op.bound l.toInt r.toInt)
  · have ordinary := ((fits_bound_toInt_iff impossible).mp fits).2
    simp only [exactAt_of_fits impossible fits, ordinary, not_false_eq_true]
  · have exact_of_extreme : op = .mod ∧ l = .minValue ∧ r = -1 →
        Fits (op.exact l.toInt r.toInt) := by
      rintro ⟨rfl, rfl, rfl⟩
      decide
    rw [exactAt_overflow_iff impossible fits]
    have := fits_bound_toInt_iff (l := l) impossible
    tauto

theorem mod_minValue : mod.apply (.int .minValue) (.int (-1)) span =
    .error (.integerOverflow span) := rfl

theorem denotes_of_ok {w : Int64} (returns : op.apply (.int l) (.int r) span = .ok (.int w)) :
    op.Denotes l.toInt r.toInt w.toInt := by
  have exact : op.ExactAt l r span := exactAt_iff.mpr <| by
    rintro ⟨rfl, rfl, rfl⟩
    simp [mod_minValue] at returns
  obtain ⟨w', denotes, same⟩ := (exact.value _).mp returns
  cases same
  exact denotes

theorem idiv_mul_add_mod {q m : Int64} (quotient : idiv.apply (.int l) (.int r) span = .ok (.int q))
    (remainder : mod.apply (.int l) (.int r) span = .ok (.int m)) :
    l.toInt = q.toInt * r.toInt + m.toInt := by
  obtain ⟨m', left⟩ := denotes_of_ok quotient
  obtain ⟨q', right⟩ := denotes_of_ok remainder
  rw [left.quotient_unique right]
  exact right.whole

end Integers

/-- What an operation does with operands that are not two integers: nothing if one is empty, and
otherwise it names the type of the first that is not an integer. -/
structure Checks (op : ArithOp) (span : Span) : Prop where
  empty_left : ∀ v, op.apply .empty v span = .ok .empty
  empty_right : ∀ v, op.apply v .empty span = .ok .empty
  left : ∀ v w, v ≠ .empty → w ≠ .empty → (∀ i, v ≠ .int i) →
    op.apply v w span = .error (.integerExpected v.typeName span)
  right : ∀ i w, w ≠ .empty → (∀ j, w ≠ .int j) →
    op.apply (.int i) w span = .error (.integerExpected w.typeName span)

theorem checks (op : ArithOp) (span : Span) : op.Checks span where
  empty_left v := apply_empty_left op v span
  empty_right v := by simp [apply, Value.isEmpty_empty]
  left v w present present' other := by
    simp only [apply, Value.isEmpty_eq_false present, Value.isEmpty_eq_false present',
      Value.asInt_eq_error other, bind, Except.bind, Bool.or_self, Bool.false_eq_true, if_false]
  right i w present other := by
    have nonempty : (Value.int i).isEmpty = false := rfl
    have integer : (Value.int i).asInt span = .ok i := rfl
    simp only [apply, nonempty, integer, Value.isEmpty_eq_false present,
      Value.asInt_eq_error other, bind, Except.bind, Bool.or_self, Bool.false_eq_true, if_false]

/-- Arithmetic is exact, and where it is not: an exact result exists unless the divisor is 0, it is
returned if it fits, and the one exception is the remainder of the least integer by -1. -/
theorem apply_exact (op : ArithOp) (l r : Int64) (span : Span) :
    ((∃! x, op.Denotes l.toInt r.toInt x) ↔ ¬((op = .idiv ∨ op = .mod) ∧ r = 0)) ∧
      (op.ExactAt l r span ↔ ¬(op = .mod ∧ l = .minValue ∧ r = -1)) ∧
      (∀ q m : Int64, idiv.apply (.int l) (.int r) span = .ok (.int q) →
        mod.apply (.int l) (.int r) span = .ok (.int m) →
        l.toInt = q.toInt * r.toInt + m.toInt) ∧
      op.Checks span := by
  refine ⟨?_, exactAt_iff, fun q m => idiv_mul_add_mod, checks op span⟩
  rw [existsUnique_denotes_iff, toInt_eq_zero_iff]

/-- The remainder 0 of the least integer by -1 is not returned. -/
theorem not_exact_mod_minValue : ¬∀ op l r span, ExactAt op l r span := by
  intro exact
  exact (exactAt_iff.mp (exact .mod .minValue (-1) .synthetic)) ⟨rfl, rfl, rfl⟩

end ArithOp

end QueryFunctions
