import QueryFunctions.Options.Basic
import QueryFunctions.Proofs.Tail.State

/-! Options that allow more: updates that are mixed with results, and deeper calls. All that the stricter
options do besides is to raise certain errors. -/
namespace QueryFunctions

/-- The error of a function that updates and should not, or should and does not. -/
def QueryError.ConcernsUpdates : QueryError → Prop
  | .notUpdating _ _ | .updatingExpected _ _ => True
  | _ => False

theorem QueryError.ConcernsUpdates.isFatal {e : QueryError} (h : e.ConcernsUpdates) :
    e.isFatal = true := by
  cases e <;> first | rfl | cases h

namespace Options

/-- The second options allow what the first allow. -/
structure Looser (o o' : Options) : Prop where
  inlineLimit : o'.inlineLimit = o.inlineLimit
  tailCalls : o'.tailCalls = o.tailCalls
  stackSize : o'.stackSize = o.stackSize
  seed : o'.seed = o.seed
  mixedUpdates : o.mixedUpdates = true → o'.mixedUpdates = true
  maxDepth : o.maxDepth ≤ o'.maxDepth

/-- The second options may get past this error of the first while code is compiled. -/
def Admits (o o' : Options) (e : QueryError) : Prop :=
  o.mixedUpdates ≠ o'.mixedUpdates ∧ e.ConcernsUpdates

/-- The second options may get past this error of the first while code is run. -/
def Lifts (o o' : Options) (e : QueryError) : Prop :=
  o.Admits o' e ∨ o.maxDepth ≠ o'.maxDepth ∧ e.IsOverflow

namespace Looser

variable {o o' : Options}

theorem refl (o : Options) : o.Looser o := ⟨rfl, rfl, rfl, rfl, id, Nat.le_refl _⟩

theorem mixing (o : Options) :
    { o with mixedUpdates := false }.Looser { o with mixedUpdates := true } :=
  ⟨rfl, rfl, rfl, rfl, nofun, Nat.le_refl _⟩

theorem deeper (o : Options) {d d' : Nat} (h : d ≤ d') :
    { o with maxDepth := d }.Looser { o with maxDepth := d' } :=
  ⟨rfl, rfl, rfl, rfl, id, h⟩

/-- Either both options mind updates, or the first does and its errors are got past, or neither does. -/
theorem mixedUpdates_cases (h : o.Looser o') :
    o'.mixedUpdates = o.mixedUpdates ∨
      o.mixedUpdates = false ∧ o'.mixedUpdates = true ∧
        ∀ e : QueryError, e.ConcernsUpdates → o.Admits o' e := by
  have mixed := h.mixedUpdates
  cases strict : o.mixedUpdates with
  | true => exact .inl (mixed strict)
  | false =>
    cases loose : o'.mixedUpdates with
    | false => exact .inl rfl
    | true => exact .inr ⟨rfl, rfl, fun e he => ⟨by rw [strict, loose]; exact Bool.noConfusion, he⟩⟩

end Looser

theorem not_lifts_self {o : Options} {e : QueryError} : ¬o.Lifts o e := by
  rintro (⟨differ, -⟩ | ⟨differ, -⟩)
  · exact differ rfl
  · exact differ rfl

end Options

end QueryFunctions
