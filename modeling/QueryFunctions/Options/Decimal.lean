/-! Decimal numbers `coefficient * 10 ^ exponent`, and which of them are too large for a double.
The comparison is exact and stays small for any exponent: a power of ten is cut where a higher one
decides the same, as the two laws below say. -/
namespace QueryFunctions

namespace Options

structure Decimal where
  coefficient : Nat
  exponent : Int
deriving DecidableEq, Repr

namespace Decimal

/-- Halfway from the largest double to the next power of two. The tie goes up. -/
def doubleBound : Nat := Nat.pow 2 1024 - Nat.pow 2 970

/-- The least power of ten that no double reaches. -/
def topPower : Nat := 309

def overflows : Decimal → Bool
  | ⟨n, .ofNat e⟩ => doubleBound ≤ n * Nat.pow 10 (min e topPower)
  | ⟨n, .negSucc e⟩ => doubleBound * Nat.pow 10 (min (e + 1) (n.log2 + 1)) ≤ n

theorem overflows_ofNat_iff (n e : Nat) :
    overflows ⟨n, .ofNat e⟩ = true ↔ doubleBound ≤ n * Nat.pow 10 e := by
  have enough : doubleBound ≤ Nat.pow 10 topPower := by decide +kernel
  simp only [overflows, decide_eq_true_eq]
  rcases Nat.le_total e topPower with h | h
  · rw [Nat.min_eq_left h]
  · rw [Nat.min_eq_right h]
    have grows : Nat.pow 10 topPower ≤ Nat.pow 10 e := by
      simp only [Nat.pow_eq]
      exact Nat.pow_le_pow_right (by decide) h
    rcases Nat.eq_zero_or_pos n with rfl | hn
    · rw [Nat.zero_mul, Nat.zero_mul]
    · exact ⟨fun _ => Nat.le_trans enough (Nat.le_trans grows (Nat.le_mul_of_pos_left _ hn)),
        fun _ => Nat.le_trans enough (Nat.le_mul_of_pos_left _ hn)⟩

theorem overflows_negSucc_iff (n e : Nat) :
    overflows ⟨n, .negSucc e⟩ = true ↔ doubleBound * Nat.pow 10 (e + 1) ≤ n := by
  have positive : 0 < doubleBound := by decide +kernel
  simp only [overflows, decide_eq_true_eq]
  rcases Nat.le_total (e + 1) (n.log2 + 1) with h | h
  · rw [Nat.min_eq_left h]
  · rw [Nat.min_eq_right h]
    have below : n < Nat.pow 10 (n.log2 + 1) :=
      Nat.lt_of_lt_of_le Nat.lt_log2_self (Nat.pow_le_pow_left (by decide) _)
    have grows : Nat.pow 10 (n.log2 + 1) ≤ Nat.pow 10 (e + 1) := Nat.pow_le_pow_right (by decide) h
    have left := Nat.le_mul_of_pos_left (Nat.pow 10 (n.log2 + 1)) positive
    have right := Nat.le_mul_of_pos_left (Nat.pow 10 (e + 1)) positive
    omega

end Decimal

end Options

end QueryFunctions
