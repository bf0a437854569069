import Mathlib
import QueryFunctions.Proofs.Form.State
import QueryFunctions.Proofs.Hygiene.Simplify
import QueryFunctions.Proofs.Query.Worlds

/-! Closures that capture constants. The simplifier moves the constants into the body, once and for all: what
it makes is left alone when it is simplified again. -/
namespace QueryFunctions

variable {c c' : Closure} {o : Options} {s t : CompileState} {id : VarId}

namespace Closure

/-- Only the frame of the body of `c` refers to its variable `id`. Functions, and function items that are
captured as constants, may have a variable of that name for themselves. -/
structure Owns (c : Closure) (s : CompileState) (id : VarId) : Prop where
  secluded : s.Secludes id
  constants : ∀ q ∈ c.captures, ∀ v, q.2 = .value v → v.Confines id
  frame : c.body.Confines id False True

/-- A closure of a compiled unit, whatever is supplied for its variables and whichever functions are
registered, as long as these are well formed. -/
structure OfUnit (c : Closure) (s : CompileState) : Prop where
  unit : ∃ options requests q budget root captures, Query.build options requests = .ok q ∧
    (q.compile budget).1 = .ok (.ok ()) ∧ (q.compile budget).2.HasBody root ∧
    root.Includes (.closure { c with captures })
  keys : ∀ q ∈ c.captures, q.1 ∈ c.scope.layout.map Prod.fst
  constants : ∀ q ∈ c.captures, ∀ v, q.2 = .value v → ∃ w, v.Formed w
  functions : ∀ f entry, s.registry.find? f = some entry → ∃ w supply, entry.Formed w supply
  drawn : ∀ x ∈ c.scope.layout, x.1.index < s.supply.nextVar

/-- No variable of a closure is one of another closure, so each closure owns what it captures. -/
theorem OfUnit.owns (h : c.OfUnit s) (mem : id ∈ c.captures.map Prod.fst) : c.Owns s id := by
  obtain ⟨q, captured, rfl⟩ := List.mem_map.1 mem
  have own := h.keys q captured
  refine ⟨⟨?_, fun f entry body found present => ?_⟩, fun x among v same => ?_, ?_⟩
  · obtain ⟨x, known, same⟩ := List.mem_map.1 own
    exact same ▸ h.drawn x known
  · obtain ⟨w, supply, hentry⟩ := h.functions f entry found
    exact (hentry.body body present).confines.mono (fun _ => trivial) fun h => h
  · obtain ⟨w, hv⟩ := h.constants x among v same
    exact hv.confines
  -- The unit has the closure with other captures, but with this body.
  · obtain ⟨options, requests, q', budget, root, captures, made, compiled, has, includes⟩ := h.unit
    obtain ⟨-, drafted⟩ := Query.drafted_of_build made
    have all : (q'.compile budget).2.Compiled (q'.world False True) True :=
      drafted.compiled (fun _ => trivial) compiled
    obtain ⟨p, he⟩ := all.formed_of_includes has includes
    cases he with
    | closure hc => exact hc.confines_frame trivial own

/-- `c'` is `c` with its constants moved into the body, and differs from it in nothing else. -/
structure Shrinks (c : Closure) (s : CompileState) (c' : Closure) : Prop where
  rest : c' = { c with
    body := c'.body, scope := c'.scope, captures := c.captures.filter (!·.2.isValue) }
  unmentioned : c.OfUnit s → ∀ q ∈ c.captures, q.2.isValue = true → c'.body.references q.1 = false

variable {simplify : Expr → Compile Expr}

theorem propagate_of_supplied (supplied : ∀ q ∈ c.captures, q.2.isValue = false) :
    c.propagate simplify = pure c := by
  have none : c.captures.filter (·.2.isValue) = [] :=
    List.filter_eq_nil_iff.2 fun q mem => by simp [supplied q mem]
  unfold propagate
  simp only [none, List.isEmpty_nil, if_true]

theorem propagate_rest (run : c.propagate simplify o s = (.ok (.ok c'), t)) : c' = { c with
    body := c'.body, scope := c'.scope, captures := c.captures.filter (!·.2.isValue) } := by
  unfold propagate at run
  dsimp only at run
  split at run
  · rename_i none
    cases run
    rw [List.isEmpty_iff, List.filter_eq_nil_iff] at none
    have all : c.captures.filter (!·.2.isValue) = c.captures :=
      List.filter_eq_self.2 fun q mem => by simpa using none q mem
    rw [all]
    cases c
    rfl
  · obtain ⟨⟨result, scope⟩, t₁, -, run⟩ := Computation.of_bind_ok run
    obtain ⟨body, t₂, -, run⟩ := Computation.of_bind_ok run
    obtain ⟨options, t₃, -, run⟩ := Computation.of_bind_ok run
    cases run
    rfl

end Closure

/-- A compiled closure is simplified to one with fewer captures, or to a function item if nothing is left to
capture, and either is simplified to itself. -/
theorem Expr.simplify_closure {budget : Nat} {e : Expr} (compiled : c.compiled = true)
    (run : (Expr.closure c).simplify (budget + 1) o s = (.ok (.ok e), t)) :
    (∀ budget' o' u, e.simplify (budget' + 1) o' u = (.ok (.ok e), u)) ∧
      ((∃ c', e = .closure c' ∧ c.Shrinks s c') ∨
        ∃ f, e = .value (.func f) ∧ ∀ q ∈ c.captures, q.2.isValue = true) := by
  have run : c.simplifyWith (Expr.simplify budget) o s = (.ok (.ok e), t) := run
  unfold Closure.simplifyWith at run
  rw [compiled] at run
  obtain ⟨c', t₁, propagated, run⟩ := Computation.of_bind_ok run
  have rest := Closure.propagate_rest propagated
  have captures : c'.captures = c.captures.filter (!·.2.isValue) := by rw [rest]
  split at run
  · rename_i bare
    obtain ⟨f, t₂, -, run⟩ := Computation.of_bind_ok run
    cases run
    refine ⟨fun _ _ _ => rfl, .inr ⟨f, rfl, fun q mem => ?_⟩⟩
    simp only [Bool.and_eq_true, List.isEmpty_iff, captures, List.filter_eq_nil_iff] at bare
    simpa using bare.1.1 q mem
  · rename_i kept
    cases run
    have supplied : ∀ q ∈ c'.captures, q.2.isValue = false := by
      intro q mem
      rw [captures] at mem
      simpa using (List.mem_filter.1 mem).2
    refine ⟨fun budget' o' u => ?_, .inl ⟨c', rfl, rest, fun ofUnit q mem constant => ?_⟩⟩
    · change c'.simplifyWith (Expr.simplify budget') o' u = _
      have compiled' : c'.compiled = true := by rw [rest]; exact compiled
      unfold Closure.simplifyWith
      rw [compiled', Closure.propagate_of_supplied supplied]
      simp only [Bool.not_true, Bool.false_eq_true, if_false, pure_bind, if_neg kept]
      rfl
    · have owned := ofUnit.owns (List.mem_map_of_mem mem)
      have values : ∀ x ∈ c.captures, x.2.isValue = true → ∀ frame, x.2.Confines q.1 False frame := by
        intro x among constant frame
        cases same : x.2 with
        | value v => exact confines_value.2 (owned.constants x among v same)
        | _ => rw [same] at constant; cases constant
      have removed : q.1 ∈ (c.captures.filter (·.2.isValue)).map Prod.fst :=
        List.mem_map_of_mem (List.mem_filter.2 ⟨mem, constant⟩)
      have kept := Closure.propagate_secludes (Expr.simplify_secludes q.1 o budget) owned.secluded values
        (owned.frame.mono (fun h => h) fun _ => removed)
      exact ((kept.law _ _ propagated).2.2 c' rfl).2.unmentioned

/-- `let $start := . let $step := . return function() { $step + $start }`. -/
def startingFrom : Sample {} where
  requests := [.main (.letIn "start" .focus (.letIn "step" .focus
    (.function {} (.arith .add (.var "step") (.var "start")))))]
  made := by cbv
  compiled := by cbv

/-- Its closure, where `$step` is known and `$start` is not. -/
def stepping : Closure where
  name := none
  params := []
  body := .arith .add (.var ⟨⟨2⟩, 0, .item, .synthetic⟩) (.var ⟨⟨3⟩, 1, .item, .synthetic⟩) .synthetic
  declared := none
  annotations := {}
  scope := (({} : Scope).add ⟨2⟩ "step" none true).add ⟨3⟩ "start" none true
  captures := [(⟨2⟩, .value (.int 5)), (⟨3⟩, .var ⟨⟨0⟩, 0, .item, .synthetic⟩)]
  origin := default
  compiled := true
  span := .synthetic

def beforeStepping : CompileState := ⟨{ nextVar := 4 }, {}, {}⟩

theorem stepping_ofUnit : stepping.OfUnit beforeStepping where
  unit := by
    refine ⟨{}, startingFrom.requests, startingFrom.query, 9, (startingFrom.query.compile 9).2.main,
      [(⟨2⟩, .var ⟨⟨1⟩, 1, .item, .synthetic⟩), (⟨3⟩, .var ⟨⟨0⟩, 0, .item, .synthetic⟩)], startingFrom.made,
      startingFrom.compiled, .inl rfl, ?_⟩
    have main : (startingFrom.query.compile 9).2.main = .letIn ⟨0⟩ 0 (.focus .synthetic)
      (.letIn ⟨1⟩ 1 (.focus .synthetic) (.closure { stepping with captures :=
        [(⟨2⟩, .var ⟨⟨1⟩, 1, .item, .synthetic⟩), (⟨3⟩, .var ⟨⟨0⟩, 0, .item, .synthetic⟩)] })) := by cbv
    rw [main]
    exact .part (List.mem_cons_of_mem _ List.mem_cons_self)
      (.part (List.mem_cons_of_mem _ List.mem_cons_self) .self)
  keys := by decide
  constants := by
    rintro q mem v same
    rcases List.mem_cons.1 mem with rfl | mem
    · cases same
      exact ⟨startingFrom.query.world False, .int⟩
    · obtain rfl := List.mem_singleton.1 mem
      cases same
  functions f entry found := by simp [beforeStepping, Registry.find?] at found
  drawn := by decide

theorem Expr.simplify_closure_stepping : ∃ c', (Expr.closure stepping).simplify 2 {} beforeStepping =
    (.ok (.ok (.closure c')), beforeStepping) ∧ c'.captures.length = 1 ∧ c'.body.references ⟨2⟩ = false := by
  let stepped : Closure := { stepping with
    body := .arith .add (.value (.int 5)) (.var ⟨⟨3⟩, 1, .item, .synthetic⟩) .synthetic
    captures := [(⟨3⟩, .var ⟨⟨0⟩, 0, .item, .synthetic⟩)] }
  have run : (Expr.closure stepping).simplify 2 {} beforeStepping =
    (.ok (.ok (.closure stepped)), beforeStepping) := rfl
  obtain ⟨-, ⟨c', same, shrinks⟩ | ⟨f, same, -⟩⟩ := Expr.simplify_closure rfl run
  · cases same
    exact ⟨stepped, run, rfl, shrinks.unmentioned stepping_ofUnit _ List.mem_cons_self rfl⟩
  · cases same

end QueryFunctions
