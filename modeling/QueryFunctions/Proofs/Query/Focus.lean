import Mathlib
import QueryFunctions.Proofs.Query.Worlds
import QueryFunctions.Proofs.Run.Blindness

/-! What the focus of a run can make a difference to. Calls are made without it, whatever they call, and
no expansion brings the body of a function that asks for it into code that has one. So a unit depends
on the focus only if its main expression asks for it itself. -/
namespace QueryFunctions

namespace Query

variable {q : Query} {w : World}

theorem Compiled.runMain_blind (compiled : q.Compiled w False) (steps : Nat) :
    Run.Blind (q.runMain steps) := by
  have main : Run.Blind (Run.evaluate steps q.main) :=
    Expr.evaluate_blind (Run.call_blind steps) q.main (by exact not_false) compiled.main
  exact (main.inFrame _).bind fun _ => Run.Blind.takeUpdates.bind fun _ => .pure _

end Query

/-- A call ends alike whatever the focus of its caller is: with the same value, error and updates. And if
the main expression of a unit does not ask for the focus outside of function bodies, then every run of
the compiled unit ends alike whatever its focus is. -/
theorem focus_hidden :
    (∀ steps next, Run.Blind (Run.call steps next)) ∧
    ∀ (options : Options) (requests : List BuildStep) (q : Query) (budget : Nat),
      Query.build options requests = .ok q → (q.compile budget).1 = .ok (.ok ()) →
      q.main.seesFocus = false → ∀ (steps : Nat) (host : Host) (focus focus' : Option Value),
        ((q.compile budget).2.execute steps host focus).1 =
          ((q.compile budget).2.execute steps host focus').1 := by
  refine ⟨Run.call_blind, fun options requests q budget made compiled blind steps host focus
    focus' => ?_⟩
  obtain ⟨-, drafted⟩ := Query.drafted_of_build made
  have hidden : (q.compile budget).2.Compiled (q.world False) False :=
    drafted.compiled (fun sees => by cases blind.symm.trans sees) compiled
  have unseen := hidden.runMain_blind steps
  have each : ∀ focus, ((q.compile budget).2.execute steps host focus).1 =
      ((q.compile budget).2.execute steps host none).1 := by
    intro focus
    rw [Query.execute_of_compiled compiled, Query.execute_of_compiled compiled]
    exact (unseen _ (.start _ _ host none) focus).fst_eq
  rw [each focus, each focus']

/-- A function whose body asks for the focus, and a call of it. -/
def asking : Sample {} where
  requests :=
    [.declare { name := some "f", params := [("x", none)] } (.arith .add (.var "x") .focus),
      .main (.call "f" [.datum (.int 1)])]
  made := by cbv
  compiled := by cbv

/-- The function gets no focus from a run that has one. -/
theorem focus_hidden_asking :
    ((asking.query.compile 9).2.execute 9 .quiet (some (.int 10))).1 =
      .ok (.error (.noFocus .synthetic)) :=
  (focus_hidden.2 {} asking.requests asking.query 9 asking.made asking.compiled (by cbv) 9 .quiet
    (some (.int 10)) none).trans (by cbv)

end QueryFunctions
