import QueryFunctions.Proofs.Run.Calls
import QueryFunctions.Proofs.Standard.Restriction

/-! The update discipline of a run, and what the flags of code say of its effects. Both rest on checks
that stand where code makes a call. A built-in that is given a function calls it back unchecked, so
both hold of evaluations that make no such call, and of all evaluations if callbacks are checked. -/
namespace QueryFunctions

namespace PendingCall

/-- A callback of a function item that is annotated updating. -/
def updatesBack : PendingCall → Bool
  | .callback f _ _ => f.isUpdating
  | _ => false

def ofItem : PendingCall → Bool
  | .registered _ _ _ => false
  | _ => true

def updating (isUpdating : FuncId → Bool) : PendingCall → Bool
  | .registered target _ _ => isUpdating target
  | .item f _ _ | .callback f _ _ => f.isUpdating

end PendingCall

namespace Allowance

def all : Allowance := ⟨True, True, fun _ => True, fun _ => True, False⟩

end Allowance

variable {d : Standard} {a : Allowance} {r : RunSetting} {s : RunState} {α : Type}

theorem PendingCall.Meets.only {next : PendingCall} (h : next.Meets d .all) {P Q : Prop}
    (updates : next.updating d.isUpdating = true → P) (draws : Q) :
    next.Meets d (Allowance.all.only P Q) := by
  cases next with
  | registered target args span => exact ⟨h.1, updates, fun _ => draws, h.2.2.2⟩
  | item f args span => exact ⟨h.1, fun _ => updates, h.2.2⟩
  | callback f args span => exact h

theorem PendingCall.within_of_checked {next : PendingCall} (draws : a.draws)
    (free : next.updatesBack = false) : next.Within d a := by
  cases next with
  | registered target args span => trivial
  | item f args span => exact draws
  | callback f args span => exact ⟨draws, fun _ upd => by simp [updatesBack, upd] at free⟩

theorem PendingCall.within_of_registered {next : PendingCall} (free : next.ofItem = false) :
    next.Within d a := by
  cases next with
  | registered target args span => trivial
  | item f args span => cases free
  | callback f args span => cases free

namespace Run

/-- The evaluation makes no call that `barred` names: however such calls were made, nothing would be
different. -/
def Avoids (barred : PendingCall → Bool) (act : Caller → Run α) (budget : Nat) (r : RunSetting)
    (s : RunState) : Prop :=
  ∀ other, act (callExcept barred other budget) r s = act (call budget) r s

variable (unmixed : d.annotated → r.options.mixedUpdates = false)
  (functions : r.registry.Runs d)

include unmixed functions

/-- What is kept under every lawful caller is kept if no call is made that might break the law. -/
theorem Avoids.keeps {barred : PendingCall → Bool} {act : Caller → Run α} {budget : Nat}
    {post : α → RunState → Prop} (avoids : Avoids barred act budget r s)
    (strict : d.annotated ∨ a.updates)
    (within : ∀ next : PendingCall, next.Meets d a → barred next = false → next.Within d a)
    (kept : ∀ call : Caller, call.Keeps d a r → (runLaw d a).Keeps r s (act call) post) :
    (runLaw d a).Keeps r s (act (call budget)) post := by
  have calls := callExcept_keeps unmixed strict functions within
    (fun _ _ _ _ _ => (Law.Keeps.of_fault rfl : (runLaw d a.still).Keeps r _ (fault .budget) _)) budget
  intro result t run
  rw [← avoids fun _ => fault .budget] at run
  exact kept _ calls result t run

theorem call_quiet {next : PendingCall} {budget : Nat} (strict : d.annotated) (hs : s.Meets d)
    (hnext : next.Meets d .all) (quiet : next.updating d.isUpdating = false)
    (avoids : Avoids PendingCall.updatesBack (fun call => call next) budget r s) :
    (runLaw d (Allowance.all.only False True)).Keeps r s (call budget next) fun v _ => v.Meets d := by
  have hnext := hnext.only (P := False) (by simp [quiet]) trivial
  refine avoids.keeps unmixed functions (.inl strict) (fun next _ free => ?_) fun call calls =>
    keeps_mono (Allowance.still_le _) (calls next s hs hnext)
  exact PendingCall.within_of_checked trivial free

theorem evaluate_quiet {e : Expr} {budget : Nat} (strict : d.annotated) (hs : s.Meets d)
    (he : e.Flagged d) (quiet : e.has .upd = false)
    (avoids : Avoids PendingCall.updatesBack (fun call => e.evaluate call) budget r s) {t : RunState}
    {result : Except QueryError Value} (run : evaluate budget e r s = (.ok result, t)) :
    t.updates = s.updates := by
  obtain ⟨a, flagged, he⟩ := he
  have he := Expr.meets_only (P := False) (Q := True) flagged e he (by simp [quiet]) fun _ _ => trivial
  have kept := avoids.keeps unmixed functions (.inl strict)
    (fun next _ free => PendingCall.within_of_checked trivial free)
    fun call calls => Expr.evaluate_keeps unmixed calls e s hs he
  exact (kept _ _ run).2.1.updates_eq id

theorem evaluate_deterministic {e : Expr} {budget : Nat} (hs : s.Meets d) (he : e.Flagged d)
    (deterministic : e.has .ndt = false)
    (avoids : Avoids PendingCall.ofItem (fun call => e.evaluate call) budget r s) {t : RunState}
    {result : Except QueryError Value} (run : evaluate budget e r s = (.ok result, t)) :
    t.random = s.random := by
  obtain ⟨a, flagged, he⟩ := he
  have he := Expr.meets_only (P := True) (Q := False) flagged e he (fun _ _ => trivial)
    (by simp [deterministic])
  have kept := avoids.keeps unmixed functions (.inr trivial)
    (fun next _ free => PendingCall.within_of_registered free)
    fun call calls => Expr.evaluate_keeps unmixed calls e s hs he
  exact (kept _ _ run).2.1.random_eq id

end Run

end QueryFunctions
