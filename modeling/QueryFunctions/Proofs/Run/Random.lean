import Mathlib.Data.List.Forall2
import Mathlib.Logic.Function.Iterate
import QueryFunctions.Proofs.Law.Basic

/-! The random generator. Its step shifts a word against itself three times. Shifted twice by some
distance, a word is shifted once by twice the distance, and shifted by its whole width it is as it was,
so no shift loses anything. The step is one to one, and a generator that does not start from zero never
comes to it. -/
namespace QueryFunctions

/-- A way to shift words of `w` bits, to the left or to the right. -/
structure ShiftsOut {w : ℕ} (shift : ℕ → BitVec w → BitVec w) : Prop where
  xor : ∀ k x y, shift k (x ^^^ y) = shift k x ^^^ shift k y
  add : ∀ k x, shift k (shift k x) = shift (k + k) x
  out : ∀ k x, w ≤ k → shift k x = 0

theorem shiftsOut_left (w : ℕ) : ShiftsOut fun k (x : BitVec w) => x <<< k where
  xor k x y := BitVec.shiftLeft_xor_distrib x y k
  add k x := (BitVec.shiftLeft_add x k k).symm
  out _ _ far := BitVec.shiftLeft_eq_zero far

theorem shiftsOut_right (w : ℕ) : ShiftsOut fun k (x : BitVec w) => x >>> k where
  xor k x y := BitVec.ushiftRight_xor_distrib x y k
  add k x := (BitVec.shiftRight_add x k k).symm
  out _ _ far := BitVec.ushiftRight_eq_zero far

namespace ShiftsOut

variable {w : ℕ} {shift : ℕ → BitVec w → BitVec w} (shifts : ShiftsOut shift)

include shifts

theorem twice (k : ℕ) (x : BitVec w) :
    (x ^^^ shift k x) ^^^ shift k (x ^^^ shift k x) = x ^^^ shift (k + k) x := by
  rw [shifts.xor, shifts.add, BitVec.xor_assoc, ← BitVec.xor_assoc (shift k x), BitVec.xor_self,
    BitVec.zero_xor]

/-- By induction on how far the shift is from the width: twice the distance is nearer to it. -/
theorem bijective {k : ℕ} (positive : 0 < k) : Function.Bijective fun x => x ^^^ shift k x := by
  by_cases far : w ≤ k
  · simp only [shifts.out k _ far, BitVec.ofNat_eq_ofNat, BitVec.xor_zero]
    exact Function.bijective_id
  · have double : Function.Bijective fun x => x ^^^ shift (k + k) x := bijective (by omega)
    have steps : ((fun x => x ^^^ shift k x) ∘ fun x => x ^^^ shift k x) =
        fun x => x ^^^ shift (k + k) x := funext (shifts.twice k)
    rw [← steps] at double
    exact ⟨double.1.of_comp, double.2.of_comp⟩
termination_by w - k

end ShiftsOut

theorem bijective_toBitVec : Function.Bijective UInt64.toBitVec :=
  Function.bijective_iff_has_inverse.2
    ⟨UInt64.ofBitVec, UInt64.ofBitVec_toBitVec, UInt64.toBitVec_ofBitVec⟩

theorem nextRandom_bijective : Function.Bijective nextRandom := by
  have first := (shiftsOut_left 64).bijective (k := 13) (by decide)
  have second := (shiftsOut_right 64).bijective (k := 7) (by decide)
  have third := (shiftsOut_left 64).bijective (k := 17) (by decide)
  have steps : UInt64.toBitVec ∘ nextRandom =
      (fun x : BitVec 64 => x ^^^ x <<< 17) ∘ (fun x : BitVec 64 => x ^^^ x >>> 7) ∘
        (fun x : BitVec 64 => x ^^^ x <<< 13) ∘ UInt64.toBitVec := by
    funext x
    simp [nextRandom]
  have whole := third.comp (second.comp (first.comp bijective_toBitVec))
  rw [← steps] at whole
  exact (Function.Bijective.of_comp_iff' bijective_toBitVec _).1 whole

theorem nextRandom_eq_zero_iff (x : UInt64) : nextRandom x = 0 ↔ x = 0 := by
  rw [← nextRandom_bijective.injective.eq_iff (a := x), nextRandom_zero]

theorem iterate_nextRandom_ne_zero {x : UInt64} (nonzero : x ≠ 0) (n : ℕ) : nextRandom^[n] x ≠ 0 := by
  induction n with
  | zero => exact nonzero
  | succ n ih =>
    rw [Function.iterate_succ_apply']
    exact fun zero => ih ((nextRandom_eq_zero_iff _).1 zero)

theorem start_random_ne_zero (supply : Supply) (options : Options) (host : Host)
    (focus : Option Value) :
    (RunState.start supply options host focus).random ≠ 0 := by
  change max options.seed 1 ≠ 0
  rw [UInt64.max_def]
  split
  · decide
  · rename_i large
    intro zero
    exact large (zero ▸ by decide)

/-- A number below a positive bound, and 0 for any other bound. -/
def DrawnBelow (bound i : Int64) : Prop := if 0 < bound then 0 ≤ i ∧ i < bound else i = 0

/-- A positive bound is the same number with and without a sign, and so is what is less than it. -/
theorem toInt_mod_of_pos (x : UInt64) {bound : Int64} (positive : 0 < bound) :
    (x % bound.toUInt64).toInt64.toInt = x.toNat % bound.toInt := by
  have low : 0 < bound.toInt := Int64.lt_iff_toInt_lt.1 positive
  have signless : 2 * bound.toBitVec.toNat < 2 ^ 64 := BitVec.toInt_pos_iff.1 (Int.le_of_lt low)
  have bound_eq : bound.toInt = bound.toBitVec.toNat := BitVec.toInt_eq_toNat_of_lt signless
  have drawn : (x % bound.toUInt64).toInt64.toBitVec.toNat = x.toNat % bound.toBitVec.toNat := by
    simp [BitVec.toNat_umod]
  have below : x.toNat % bound.toBitVec.toNat < bound.toBitVec.toNat := Nat.mod_lt _ (by omega)
  rw [← Int64.toInt_toBitVec, BitVec.toInt_eq_toNat_of_lt (by omega), drawn, bound_eq]
  rfl

theorem drawnBelow_boundedRandom (x : UInt64) (bound : Int64) :
    DrawnBelow bound (boundedRandom x bound) := by
  unfold DrawnBelow boundedRandom
  by_cases positive : 0 < bound
  · have low : 0 < bound.toInt := Int64.lt_iff_toInt_lt.1 positive
    rw [if_pos positive, if_neg (Int64.not_le.2 positive), Int64.le_iff_toInt_le,
      Int64.lt_iff_toInt_lt, toInt_mod_of_pos x positive]
    exact ⟨Int.emod_nonneg _ (Int.ne_of_gt low), Int.emod_lt_of_pos _ low⟩
  · rw [if_neg positive, if_pos (Int64.not_lt.1 positive)]

namespace Run

theorem random_run (bound : Int64) (r : RunSetting) (s : RunState) :
    Run.random bound r s =
      (.ok (.ok (boundedRandom (nextRandom s.random) bound)),
        { s with random := nextRandom s.random }) := rfl

theorem mapM_random_run (r : RunSetting) (bounds : List Int64) (s : RunState) :
    ∃ drawn, bounds.mapM Run.random r s =
        (.ok (.ok drawn), { s with random := nextRandom^[bounds.length] s.random }) ∧
      List.Forall₂ DrawnBelow bounds drawn := by
  induction bounds generalizing s with
  | nil => exact ⟨[], rfl, .nil⟩
  | cons bound bounds ih =>
    obtain ⟨drawn, run, each⟩ := ih { s with random := nextRandom s.random }
    refine ⟨boundedRandom (nextRandom s.random) bound :: drawn, ?_,
      .cons (drawnBelow_boundedRandom _ _) each⟩
    rw [List.mapM_cons, Computation.run_bind, random_run]
    dsimp only
    rw [Computation.run_bind, run]
    rfl

/-- The step of the generator is one to one and takes only zero to zero. However a generator is
seeded and however often it is asked, it is never at zero, and each number that it gives is below the
bound that it was asked with, if that is positive, and else 0. -/
theorem generator_runs_on :
    Function.Bijective nextRandom ∧ (∀ x, nextRandom x = 0 ↔ x = 0) ∧
      ∀ (r : RunSetting) (supply : Supply) (options : Options) (host : Host)
        (focus : Option Value),
        (∀ n, nextRandom^[n] (RunState.start supply options host focus).random ≠ 0) ∧
        ∀ bounds : List Int64, ∃ drawn t,
          bounds.mapM Run.random r (.start supply options host focus) = (.ok (.ok drawn), t) ∧
            t.random = nextRandom^[bounds.length] (RunState.start supply options host focus).random ∧
            List.Forall₂ DrawnBelow bounds drawn := by
  refine ⟨nextRandom_bijective, nextRandom_eq_zero_iff, fun r supply options host focus =>
    ⟨iterate_nextRandom_ne_zero (start_random_ne_zero supply options host focus),
      fun bounds => ?_⟩⟩
  obtain ⟨drawn, run, each⟩ := mapM_random_run r bounds (.start supply options host focus)
  exact ⟨drawn, _, run, rfl, each⟩

end Run

end QueryFunctions
