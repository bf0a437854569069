import QueryFunctions.Proofs.Query.CanonicalForm
import QueryFunctions.Proofs.Run.Restoration

/-! Higher-order built-ins and concatenation. Applied to a sequence that is made of two, each does what
it does to the first, and then, in the state that is left, what it does to the second. -/
namespace QueryFunctions

section

variable {m : Type → Type} [Monad m] [LawfulMonad m] {α : Type}

end

namespace Computation

variable {ρ σ α β : Type} {r : ρ} {s t : σ}

section

variable {act : Computation ρ σ α} {next : α → Computation ρ σ β} {u : σ}

end

end Computation

namespace Run

/-- A run that is one run and after it another. Its value is `joined` from theirs, and it raises an error
where the first raises it, or else the second; the state that it leaves, random generator included, is
left by the last of them, and the second goes on from the state of the first. -/
structure Joins (r : RunSetting) (s : RunState) (whole first : Run Value) (second : Value → Run Value)
    (joined : Value → Value → Value → Prop) : Prop where
  value : ∀ x u, whole r s = (.ok (.ok x), u) → ∃ a b t, first r s = (.ok (.ok a), t) ∧
    second a r t = (.ok (.ok b), u) ∧ joined a b x
  returns : ∀ a b t u, first r s = (.ok (.ok a), t) → second a r t = (.ok (.ok b), u) →
    ∃ x, whole r s = (.ok (.ok x), u) ∧ joined a b x
  error : ∀ e u, whole r s = (.ok (.error e), u) ↔ first r s = (.ok (.error e), u) ∨
    ∃ a t, first r s = (.ok (.ok a), t) ∧ second a r t = (.ok (.error e), u)
  fault : ∀ f u, whole r s = (.error f, u) ↔ first r s = (.error f, u) ∨
    ∃ a t, first r s = (.ok (.ok a), t) ∧ second a r t = (.error f, u)
  /-- Updates are added by the first run, and then by the second. -/
  updates : ∀ a t result u, first r s = (.ok (.ok a), t) → second a r t = (.ok result, u) →
    ∃ more rest, t.updates = s.updates ++ more ∧ u.updates = s.updates ++ more ++ rest

variable {r : RunSetting} {s : RunState} {whole first : Run Value} {second : Value → Run Value}
  {joined : Value → Value → Value → Prop}

end Run

namespace Value

mutual
/-- The items of a value and of the sequences among them. -/
def leaves : Value → List Value
  | .seq vs => listLeaves vs
  | v => [v]
termination_by structural x => x

def listLeaves : List Value → List Value
  | [] => []
  | v :: vs => leaves v ++ listLeaves vs
termination_by structural x => x
end

variable {vs ws : List Value}

end Value

namespace Builtin

variable {invoke : Invocation} {v w z f : Value} {span : Span} {r : RunSetting} {s : RunState}

/-- What a loop over the items of `v` gathers, once `f` is known to be a function. -/
def gather (loop : FuncItem → List Value → Run (List Value)) (f : Value) (span : Span) (v : Value) :
    Run (List Value) := do
  let g ← ofExcept (f.asFunc span)
  loop g v.items

variable {loop : FuncItem → List Value → Run (List Value)}

section

variable (hv : v.isCanonical = true) (hw : w.isCanonical = true)
  (adds : ∀ (b : Builtin) (args : List Value), Run.Restores .all (b.apply invoke args span))

include hv hw adds

end

end Builtin

end QueryFunctions
