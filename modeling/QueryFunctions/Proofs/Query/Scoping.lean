import Mathlib
import QueryFunctions.Proofs.Query.Worlds

/-! Scopes and frames of a unit from the builder to a run. Code that is built refers to variables of its
own scope, compilation keeps it so, and a run finds each slot that it names in the frame at hand.
Parameters keep their slots. A captured variable takes the lowest slot that is free where its name is first
mentioned, which may be that of a let that the body opens once more each time it is run. -/
namespace QueryFunctions

theorem World.eq_budget {w : World} (exact : w.exact) {f : Fault} (met : w.faults f) : f = .budget := by
  cases f with
  | budget => rfl
  | missingParameter position => exact absurd exact met
  | undeclaredVariable | uncopiedVariable | slotOutsideFrame | missingFunction => exact met.elim

/-- A unit whose partial applications have their placeholders among their arguments can always be built,
and neither compilation nor a run ever asks for a variable, a slot, a parameter or a function that is not
there. For once it is compiled without an error, each of its bodies is well formed in a scope that
serves it: all variables that it names are declared and bound there, in slots of the frame. What a run
gives is well formed like what it was started with, so it may be handed to the next run. -/
theorem scoping_kept (options : Options) {requests : List BuildStep}
    (named : ∀ request ∈ requests, request.named = true) :
    ∃ q, Query.build options requests = .ok q ∧ q.options = options ∧ ∀ budget,
      (∀ f, (q.compile budget).1 = .error f → f = .budget) ∧
      ((q.compile budget).1 = .ok (.ok ()) →
        (∀ scope params captured body, (q.compile budget).2.Activates scope params captured body →
          ∃ supply, scope.Serves supply params captured ∧
            body.Formed (q.world True) (.ofBody scope params captured supply)) ∧
        ∀ steps host focus, (∀ v, focus = some v → v.Formed (q.world True)) →
          let ended := ((q.compile budget).2.execute steps host focus).1
          (∀ f, ended = .error f → f = .budget) ∧
            ∀ answer, ended = .ok (.ok answer) → answer.value.Formed (q.world True)) := by
  obtain ⟨q, made, same, drafted⟩ := Query.build_drafted options fun _ : True => named
  refine ⟨q, made, same, fun budget => ⟨fun f met => ?_, fun compiled => ?_⟩⟩
  · have fit : q.Fit (q.world True) True := drafted.fit fun _ => trivial
    have ended := (fit.compile budget).2
    rw [met] at ended
    exact World.eq_budget trivial ended
  · have all : (q.compile budget).2.Compiled (q.world True) True :=
      drafted.compiled (fun _ => trivial) compiled
    refine ⟨fun _ _ _ _ => all.activated, fun steps host focus hfocus => ?_⟩
    have ends := all.run steps host hfocus
    rw [← Query.execute_of_compiled compiled] at ends
    refine ⟨fun f met => ?_, fun answer given => ?_⟩
    · rw [met] at ends
      exact World.eq_budget trivial ends
    · rw [given] at ends
      exact ends

/-- A function that makes a closure of its parameters and of a let, and a partial application of it. -/
def nesting : Sample {} where
  requests :=
    [.declare { name := some "f", params := [("x", none), ("y", none)] }
        (.letIn "z" (.arith .add (.var "x") (.var "y"))
          (.function { params := [("a", none)] }
            (.letIn "b" (.arith .mul (.var "a") (.var "z")) (.arith .add (.var "b") (.var "y"))))),
      .main (.letIn "g" (.partialCall "f" [none, some (.datum (.int 2))])
        (.dynamicCall false (.dynamicCall false (.var "g") [.focus]) [.datum (.int 3)]))]
  made := by cbv
  compiled := by cbv

theorem scoping_kept_nesting : ∃ q, Query.build {} nesting.requests = .ok q ∧
    (∃ supply, (q.compile 9).2.main.Formed (q.world True)
      (.ofBody (q.compile 9).2.scope [] [] supply)) ∧
    ∀ f, ((q.compile 9).2.execute 9 .quiet (some (.int 10))).1 = .error f → f = .budget := by
  have named : ∀ request ∈ nesting.requests, request.named = true := by decide
  obtain ⟨q, made, -, ends⟩ := scoping_kept {} named
  have same : nesting.query = q := Except.ok.inj (nesting.made.symm.trans made)
  have compiled : (q.compile 9).1 = .ok (.ok ()) := same ▸ nesting.compiled
  obtain ⟨bodies, runs⟩ := (ends 9).2 compiled
  obtain ⟨supply, -, main⟩ := bodies _ _ _ _ .main
  refine ⟨q, made, ⟨supply, main⟩, (runs 9 .quiet (some (.int 10)) ?_).1⟩
  rintro _ ⟨⟩
  exact .int

/-- Evaluating `e` may evaluate `p`, in the same frame. -/
def Expr.Runs (e p : Expr) : Prop := Relation.ReflTransGen (fun e p => p ∈ e.operands) e p

theorem Expr.Formed.runs {w : World} {p : Place} {e x : Expr} (he : e.Formed w p) (runs : e.Runs x) :
    ∃ bound, x.Formed w { p with bound } := by
  induction runs with
  | refl => exact ⟨_, he⟩
  | tail _ mem ih =>
    obtain ⟨_, hx⟩ := ih
    obtain ⟨bound, hoperand⟩ := hx.operand mem
    exact ⟨bound, hoperand⟩

/-- A let of a function body has no slot of a parameter. And whatever the body evaluates in a frame of its
scope, where all values are well formed, leaves the parameters as they were, also where it ends with
an error. -/
theorem parameters_kept {options : Options} {requests : List BuildStep} {q : Query} {budget : Nat}
    (made : Query.build options requests = .ok q) (compiled : (q.compile budget).1 = .ok (.ok ()))
    {scope : Scope} {params captured : List VarId} {body part : Expr}
    (bears : (q.compile budget).2.Activates scope params captured body) (runs : body.Runs part) :
    (∀ id slot bound rest, part = .letIn id slot bound rest →
      ∀ x ∈ params, (x, slot) ∉ scope.layout) ∧
    ∀ steps s t result, s.base + scope.frameSize ≤ s.stack.size →
      (∀ v ∈ s.stack, v.Formed (q.world False)) →
      (∀ v, s.focus = some v → v.Formed (q.world False)) →
      part.evaluate (Run.call steps) (q.compile budget).2.setting s = (.ok result, t) →
      t.base = s.base ∧ ∀ x ∈ params, ∀ slot, (x, slot) ∈ scope.layout →
        t.stack[s.base + slot]? = s.stack[s.base + slot]? := by
  obtain ⟨-, drafted⟩ := Query.drafted_of_build made
  have all : (q.compile budget).2.Compiled (q.world False) True :=
    drafted.compiled (fun _ => trivial) compiled
  obtain ⟨supply, serves, hbody⟩ := all.activated bears
  obtain ⟨bound, hpart⟩ := hbody.runs runs
  refine ⟨?_, fun steps s t result fits stack focus run => ?_⟩
  · rintro id slot bound rest rfl x mem here
    cases hpart with
    | letIn _ spared _ _ => exact spared ⟨x, mem, here⟩
  · let g : Ground := {
      base := s.base
      size := scope.frameSize
      frozen i := ∃ x ∈ params, ∃ slot, (x, slot) ∈ scope.layout ∧ i = s.base + slot
      cells i := s.stack[i]? }
    have suits : g.Suits { Place.ofBody scope params captured supply with bound } := by
      refine ⟨serves.sound.laid.bounded, fun slot free => ?_⟩
      rintro ⟨x, mem, other, here, same⟩
      exact free ⟨x, mem, Nat.add_left_cancel same ▸ here⟩
    have kept := Expr.evaluate_forms (r := (q.compile budget).2.setting)
      (Run.call_forms all.registry steps) part suits hpart s ⟨rfl, fits, stack, focus, fun _ _ => rfl⟩
    have ht : t.Formed (q.world False) g := by
      unfold Contract.Keeps at kept
      rw [run] at kept
      cases result with
      | error e => exact kept.1
      | ok v => exact kept.1
    exact ⟨ht.base, fun x mem slot here => ht.frozen _ ⟨x, mem, slot, here, rfl⟩⟩

def doubling : Sample {} where
  requests :=
    [.declare { name := some "f", params := [("x", none)] }
        (.letIn "a" (.arith .add (.var "x") (.var "x")) (.arith .add (.var "a") (.var "x"))),
      .main (.call "f" [.datum (.int 5)])]
  made := by cbv
  compiled := by cbv

namespace doubling

def entry : Entry := ((doubling.query.compile 9).2.registry.find? ⟨0⟩).get (by cbv)

def body : Expr := entry.body.get (by cbv)

theorem activates : (doubling.query.compile 9).2.Activates entry.scope entry.params [] body := by
  have found : (doubling.query.compile 9).2.registry.find? ⟨0⟩ = some entry := by rw [entry, Option.some_get]
  have present : entry.body = some body := by rw [body, Option.some_get]
  exact .function found present

def entered : RunState := { doubling.start with stack := #[.int 5, .empty] }

end doubling

theorem parameters_kept_doubling : ∃ t,
    doubling.body.evaluate (Run.call 9) (doubling.query.compile 9).2.setting doubling.entered =
      (.ok (.ok (.int 15)), t) ∧ t.stack[0]? = some (.int 5) := by
  have ended : (doubling.body.evaluate (Run.call 9) (doubling.query.compile 9).2.setting
      doubling.entered).1 = .ok (.ok (.int 15)) := by cbv
  have run := eq_of_fst_eq ended
  obtain ⟨params, slots⟩ : doubling.entry.params = [⟨0⟩] ∧
      doubling.entry.scope.layout = [(⟨0⟩, 0), (⟨1⟩, 1)] ∧ doubling.entry.scope.frameSize = 2 := by cbv
  have values : ∀ v ∈ doubling.entered.stack, v.Formed (doubling.query.world False) := by
    intro v mem
    obtain rfl | rfl : v = .int 5 ∨ v = .empty := by simpa [doubling.entered] using mem
    · exact .int
    · exact Value.formed_empty
  obtain ⟨-, kept⟩ := parameters_kept doubling.made doubling.compiled doubling.activates .refl
  obtain ⟨-, same⟩ := kept 9 doubling.entered _ _ (by rw [slots.2]; decide) values (by rintro _ ⟨⟩) run
  exact ⟨_, run, same ⟨0⟩ (by rw [params]; simp) 0 (by rw [slots.1]; simp)⟩

/-- No let of the body has the slot of a parameter or of a captured variable. -/
def Closure.Apart (c : Closure) : Prop :=
  ∀ id slot bound body, c.body.Runs (.letIn id slot bound body) →
    ∀ x, x ∈ c.params ∨ x ∈ c.captures.map Prod.fst → (x, slot) ∉ c.scope.layout

/-- A function that opens a let before it mentions a variable from outside. -/
def overtaking : Sample { inlineLimit := 0 } where
  requests :=
    [.main (.letIn "c" .focus (.dynamicCall false
      (.function { params := [("x", none)] } (.arith .add
        (.letIn "a" (.arith .add (.var "x") (.datum (.int 1)))
          (.arith .mul (.var "a") (.var "a")))
        (.var "c")))
      [.datum (.int 5)]))]
  made := by cbv
  compiled := by cbv

namespace overtaking

/-- The frame of the function: its parameter, the variable of its let and the captured one. -/
def frame : Scope where
  vars := [⟨⟨1⟩, "x", none, .item, 0, true⟩, ⟨⟨2⟩, "a", none, .item, 1, false⟩,
    ⟨⟨3⟩, "c", none, .item, 1, true⟩]
  slots := [true, true]

def ref (id slot : Nat) : Expr := .var ⟨⟨id⟩, slot, .item, .synthetic⟩

def next : Expr := .arith .add (ref 1 0) (.value (.int 1)) .synthetic

def square : Expr := .arith .mul (ref 2 1) (ref 2 1) .synthetic

def closure : Closure where
  name := none
  params := [⟨1⟩]
  body := .arith .add (.letIn ⟨2⟩ 1 next square) (ref 3 1) .synthetic
  declared := none
  annotations := {}
  scope := frame
  captures := [(⟨3⟩, ref 0 0)]
  origin := ⟨0⟩
  compiled := false
  span := .synthetic

end overtaking

theorem overtaking_main : overtaking.query.main = .letIn ⟨0⟩ 0 (.focus .synthetic)
    (.dynamicCall ⟨false, false, [], .synthetic⟩ (.closure overtaking.closure)
      [.value (.int 5)]) := by cbv

/-- So a let may have the slot of a captured variable, and what was captured is gone before it is read:
the function gives the square of 6 and 6 once more in place of 10. -/
theorem not_captures_apart : ¬∀ (options : Options) (requests : List BuildStep) (q : Query),
    Query.build options requests = .ok q → ∀ c, Expr.closure c ∈ q.main.nodes → c.Apart := by
  intro all
  have among : Expr.closure overtaking.closure ∈ overtaking.query.main.nodes := by
    rw [overtaking_main]
    simp [Expr.nodes, listNodes]
  have runs : overtaking.closure.body.Runs
      (.letIn ⟨2⟩ 1 overtaking.next overtaking.square) := .single List.mem_cons_self
  refine all _ _ _ overtaking.made _ among ⟨2⟩ 1 _ _ runs ⟨3⟩ (.inr List.mem_cons_self) ?_
  decide

example : (overtaking.query.execute 9 .quiet (some (.int 10))).1 =
    .ok (.ok ⟨.int 42, []⟩) := by cbv

end QueryFunctions
