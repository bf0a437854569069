import Mathlib
import QueryFunctions.Proofs.Canonical.Calls
import QueryFunctions.Proofs.Canonical.Compilation
import QueryFunctions.Proofs.Query.Units

/-! Units whose constants are canonical. Compilation makes no other constants, and a run no other values:
results, what stands on the stack, what items have captured, arguments and updates are canonical at every
call. So flattening, which takes away one level of sequences, is all that is needed to join values. -/
namespace QueryFunctions

namespace Query

/-- A run of the main expression that is vetted at every call. -/
noncomputable def runMainVetted (other : Caller) (budget : Nat) (q : Query) : Run Answer := do
  let value ← Run.inFrame q.scope.frameSize (q.main.evaluate (Run.callVetted other budget))
  return ⟨value, ← Run.takeUpdates⟩

variable {q : Query} {budget : Nat}

theorem Canonical.evaluate (h : q.Canonical) {e : Expr} {s : RunState} (he : e.Canonical)
    (hs : s.Canonical) (other : Caller) :
    Run.Refines q.setting s (Run.evaluate budget e) (e.evaluate (Run.callVetted other budget))
      Value.Canonical :=
  e.evaluate_refines (Run.callVetted_refines h.functions other budget) s hs he

theorem Canonical.runMain (h : q.Canonical) {s : RunState} (hs : s.Canonical) (other : Caller) :
    Run.Refines q.setting s (q.runMain budget) (q.runMainVetted other budget)
      fun answer => answer.value.Canonical ∧ ∀ v ∈ answer.updates, v.Canonical := by
  refine (Run.inFrame_refines (h.evaluate h.main (hs.pushed _) other)).bind fun v t ht hv => ?_
  have taken : ({ t with updates := [] } : RunState).Canonical := ⟨ht.stack, ht.focus, nofun⟩
  exact (Run.refines_of_eq (q := fun us => ∀ v ∈ us, v.Canonical) rfl taken ht.updates).bind
    fun us u hu hus => .pure hu ⟨hv, hus⟩

theorem canonical_start (supply : Supply) (o : Options) (host : Host) {focus : Option Value}
    (hfocus : ∀ v, focus = some v → v.Canonical) : (RunState.start supply o host focus).Canonical :=
  ⟨by simp [RunState.start], hfocus, nofun⟩

/-- Canonical form. Flattening keeps it, gives the items of all values, and does not mind how these were
grouped. If the constants of a unit are canonical, compilation leaves no others behind. Canonical code, or
a canonical call, in a canonical state ends in a canonical state and with a canonical value; and at every
call on the way the state, the item that is called with all it has captured, the arguments and the result
are canonical: if other calls were made in any other way, nothing would be different. So it is with the
main expression, if the focus is canonical, and with what the unit answers. -/
theorem canonical_form (q : Query) (canonical : q.Canonical) (budget : Nat) :
    (∀ vs ws : List Value, (∀ v ∈ vs, v.isCanonical = true) → (∀ w ∈ ws, w.isCanonical = true) →
      (Value.ofItems vs).isCanonical = true ∧ (Value.ofItems vs).items = vs.flatMap Value.items ∧
        Value.ofItems [.ofItems vs, .ofItems ws] = .ofItems (vs ++ ws)) ∧
    (∀ result p, q.compile budget = (.ok result, p) → p.Canonical) ∧
    (∀ (e : Expr) (s : RunState), e.Canonical → s.Canonical →
      (∀ other, e.evaluate (Run.callVetted other budget) q.setting s =
        Run.evaluate budget e q.setting s) ∧
      ∀ result t, Run.evaluate budget e q.setting s = (.ok result, t) →
        t.Canonical ∧ ∀ v, result = .ok v → v.Canonical) ∧
    (∀ (next : PendingCall) (s : RunState), next.Canonical → s.Canonical →
      (∀ other, Run.callVetted other budget next q.setting s =
        Run.call budget next q.setting s) ∧
      ∀ result t, Run.call budget next q.setting s = (.ok result, t) →
        t.Canonical ∧ ∀ v, result = .ok v → v.Canonical) ∧
    ∀ (host : Host) (focus : Option Value), (∀ v, focus = some v → v.Canonical) →
      (∀ other, (q.runMainVetted other budget).outcome q.setting
          (.start q.supply q.options host focus) =
        (q.runMain budget).outcome q.setting (.start q.supply q.options host focus)) ∧
      ∀ answer p, q.execute budget host focus = (.ok (.ok answer), p) →
        answer.value.Canonical ∧ ∀ v ∈ answer.updates, v.Canonical := by
  refine ⟨fun vs ws first second => ⟨Value.isCanonical_ofItems first, Value.items_ofItems first,
    Value.ofItems_pair first second⟩, fun result p => canonical.compile,
    fun e s he hs => ⟨fun other => (canonical.evaluate he hs other).same, fun result t run => ?_⟩,
    fun next s hnext hs => ⟨fun other => ?_, fun result t run => ?_⟩,
    fun host focus hfocus => ⟨fun other => ?_, fun answer p run => ?_⟩⟩
  · obtain ⟨ht, -, value⟩ := (canonical.evaluate he hs fun _ => Run.fault .budget).kept result t run
    exact ⟨ht, value⟩
  · exact (Run.callVetted_refines canonical.functions other budget next s hs hnext).same
  · obtain ⟨ht, -, value⟩ := (Run.callVetted_refines canonical.functions (fun _ => Run.fault .budget) budget
      next s hs hnext).kept result t run
    exact ⟨ht, value⟩
  · exact (canonical.runMain (canonical_start _ _ _ hfocus) other).same
  · unfold execute at run
    rcases compiled : q.compile budget with ⟨f | e | _, p'⟩
    · rw [compiled] at run
      cases run
    · rw [compiled] at run
      cases run
    · rw [compiled] at run
      have hp := canonical.compile compiled
      have start := canonical_start p'.supply p'.options host hfocus
      rcases ran : (p'.runMain budget).outcome p'.setting (.start p'.supply p'.options host focus)
        with ⟨result, t⟩
      simp only [ran] at run
      cases run
      exact ((hp.runMain start fun _ => Run.fault .budget).kept _ _ ran).2.2 answer rfl

end Query

namespace Value

def isPlain : Value → Bool
  | .func _ => false
  | .seq vs => vs.length != 1 && vs.all fun v => match v with
    | .int _ | .bool _ | .str _ => true
    | _ => false
  | _ => true

theorem canonical_of_isPlain {v : Value} (plain : v.isPlain = true) : v.Canonical := by
  cases v with
  | int i => exact canonical_int
  | bool b => exact canonical_bool
  | str s => exact canonical_str
  | func f => cases plain
  | seq vs =>
    simp only [isPlain, Bool.and_eq_true, List.all_eq_true] at plain
    refine canonical_seq.2 ⟨?_, fun v mem => ?_⟩
    · simp only [isCanonical, Bool.and_eq_true, List.all_eq_true]
      refine ⟨plain.1, fun v mem => ?_⟩
      have single := plain.2 v mem
      cases v <;> first | rfl | cases single
    · have single := plain.2 v mem
      cases v <;> first | simp | cases single

end Value

/-- The constants of the code are canonical and hold no function items. -/
def Expr.isPlain (e : Expr) : Bool := (e.nodes.filterMap value?).all Value.isPlain

theorem Expr.canonical_of_isPlain {e : Expr} (plain : e.isPlain = true) : e.Canonical :=
  fun v mem => Value.canonical_of_isPlain
    (List.all_eq_true.1 plain v (List.mem_filterMap.2 ⟨.value v, mem, rfl⟩))

theorem Query.canonical_of_isPlain {q : Query} (main : q.main.isPlain = true)
    (functions : (q.registry.entries.all fun entry => entry.body.all Expr.isPlain) = true) : q.Canonical := by
  refine ⟨fun id entry found body present => ?_, Expr.canonical_of_isPlain main⟩
  have plain := List.all_eq_true.1 functions entry (List.mem_of_getElem? found)
  rw [present] at plain
  exact Expr.canonical_of_isPlain plain

/-- A function that gives sequences, called for the items of a sequence, and the focus after that. -/
def repeating : Sample {} where
  requests :=
    [.declare { name := some "f", params := [("n", none)] }
        (.branch (.var "n") (.seq [.var "n", .var "n"]) (.seq [])),
      .main (.seq [.builtin .forEach [.datum (.seq [.int 2, .int 0, .int 3]), .literal "f" 1], .focus])]
  made := by cbv
  compiled := by cbv

def repeatingFocus : Value := .seq [.int 7, .int 8]

theorem canonical_repeatingFocus (v : Value) (same : some repeatingFocus = some v) : v.Canonical := by
  cases same
  exact Value.canonical_of_isPlain rfl

theorem repeating_canonical : repeating.query.Canonical := by
  refine Query.canonical_of_isPlain ?_ ?_
  · cbv
  · cbv

set_option maxRecDepth 3000 in
theorem repeating_answer : (repeating.query.execute 9 .quiet (some repeatingFocus)).1 =
    .ok (.ok ⟨.seq [.int 2, .int 2, .int 3, .int 3, .int 7, .int 8], []⟩) := by cbv

theorem canonical_form_repeating :
    (Value.ofItems [.ofItems [.int 1, repeatingFocus], .ofItems [.empty]]).items =
        [.int 1, .int 7, .int 8] ∧
      (repeating.query.compile 9).2.Canonical ∧
      (Value.seq [.int 2, .int 2, .int 3, .int 3, .int 7, .int 8]).Canonical := by
  have focus : repeatingFocus.isCanonical = true := rfl
  obtain ⟨flattening, compilation, -, -, running⟩ :=
    Query.canonical_form repeating.query repeating_canonical 9
  obtain ⟨-, -, joined⟩ := flattening [.int 1, repeatingFocus] [.empty]
    (by simpa [Value.isCanonical] using focus) (by simp [Value.isCanonical, Value.empty])
  refine ⟨?_, compilation _ _ (eq_of_fst_eq repeating.compiled), ?_⟩
  · rw [joined]
    rfl
  · exact ((running .quiet _ canonical_repeatingFocus).2 _ _ (eq_of_fst_eq repeating_answer)).1

end QueryFunctions
