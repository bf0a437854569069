import Mathlib
import QueryFunctions.Proofs.Alpha.Evaluation
import QueryFunctions.Proofs.Alpha.Copying
import QueryFunctions.Proofs.Current.Surface

/-! Copies of the code of a unit. A copy differs in the identities of variables only, and those that its
closures have are new to the unit. No run can tell it from the original. -/
namespace QueryFunctions

/-- The variable is referred to or declared in the code, function items and what is in them included. -/
inductive Expr.Mentions (e : Expr) : VarId → Prop
  | reference {ref} : e.Includes (.var ref) → e.Mentions ref.id
  | binder {id slot bound body} : e.Includes (.letIn id slot bound body) → e.Mentions id
  | closure {x scope v} : e.Includes x → x.scope? = some scope → v ∈ scope.vars → e.Mentions v.id
  | item {v f params captured body scope x} : e.Includes (.value v) → v.HasItem f →
    f.code = .closure params captured body scope → x ∈ scope.vars → e.Mentions x.id

/-- The variable is known to the unit: to its code, or to the scope of its main expression or a function. -/
inductive Query.Mentions (q : Query) : VarId → Prop
  | code {body id} : q.HasBody body → body.Mentions id → q.Mentions id
  | main {v} : v ∈ q.scope.vars → q.Mentions v.id
  | function {f e v} : q.registry.find? f = some e → v ∈ e.scope.vars → q.Mentions v.id

theorem Scope.Sound.index_lt {s : Scope} {supply : Supply} (h : s.Sound supply) {v : Variable}
    (mem : v ∈ s.vars) : v.id.index < supply.nextVar :=
  h.fresh (v.id, v.slot) (List.mem_map_of_mem mem)

theorem Expr.Current.index_lt {e : Expr} {supply : Supply} {known : Listing} (h : e.Current supply known)
    (drawn : known.DrawnFrom supply) {id : VarId} (mentions : e.Mentions id) :
    id.index < supply.nextVar := by
  cases mentions with
  | reference includes =>
    obtain ⟨_, drawn, here⟩ := h.included drawn includes
    exact drawn (current_var.1 here)
  | binder includes =>
    obtain ⟨_, drawn, here⟩ := h.included drawn includes
    obtain ⟨⟨type, known⟩, -⟩ := current_letIn.1 here
    exact drawn known
  | @closure x scope v includes own mem =>
    obtain ⟨_, -, here⟩ := h.included drawn includes
    cases x with
    | closure c =>
      cases own
      exact (current_closure.1 here).1.sound.index_lt mem
    | literal site c =>
      cases own
      exact (current_closure.1 (current_literal.1 here)).1.sound.index_lt mem
    | _ => cases own
  | item includes has code mem =>
    obtain ⟨_, -, here⟩ := h.included drawn includes
    exact (current_value.1 here _ has _ _ _ _ code).1.index_lt mem

namespace Query

variable {q q₀ : Query} {options : Options} {requests : List BuildStep} {budget : Nat}

theorem Current.body (h : q.Current) {body : Expr} (has : q.HasBody body) :
    ∃ known : Listing, known.DrawnFrom q.supply ∧ body.Current q.supply known := by
  rcases has with rfl | ⟨f, entry, found, present⟩
  · obtain ⟨scope, sound, here⟩ := h.main
    exact ⟨scope.Lists, sound.drawnFrom, here⟩
  · obtain ⟨sound, bodies⟩ := h.functions f entry found
    exact ⟨entry.scope.Lists, sound.drawnFrom, bodies body present⟩

theorem Current.index_lt (h : q.Current) {id : VarId} (mentions : q.Mentions id) :
    id.index < q.supply.nextVar := by
  cases mentions with
  | code has mentions =>
    obtain ⟨known, drawn, here⟩ := h.body has
    exact here.index_lt drawn mentions
  | main mem => exact h.scope.index_lt mem
  | function found mem => exact (h.functions _ _ found).1.index_lt mem

/-- Units are current when they leave the builder, and once their compilation has come to an end. -/
theorem current_of_build (made : build options requests = .ok q₀)
    (stage : q = q₀ ∨ ∃ budget result, q₀.compile budget = (.ok result, q)) : q.Current := by
  have staged := staged_of_build made
  rcases stage with rfl | ⟨budget, result, ran⟩
  · exact staged.current
  · exact (staged.compile ran).1

end Query

/-- The same error, or values that are the same up to identities of variables, and states that are. Neither
run comes to an end if the other one does not. -/
inductive SameOutcome : Except Fault (Except QueryError Value) × RunState →
    Except Fault (Except QueryError Value) × RunState → Prop
  | ends {result result' t t'} : Ends Value.Renames result result' → t.Renames t' →
    SameOutcome (.ok result, t) (.ok result', t')
  | faults {f f' t t'} : SameOutcome (.error f, t) (.error f', t')

theorem SameOutcome.int {i : Int64} {p p' : Except Fault (Except QueryError Value) × RunState}
    (h : SameOutcome p p') (number : p.1 = .ok (.ok (.int i))) : ∃ u, p' = (.ok (.ok (.int i)), u) := by
  cases h with
  | faults => cases number
  | ends same =>
    cases number
    cases same with
    | ok same =>
      cases same
      exact ⟨_, rfl⟩

theorem Expr.Renames.sameOutcome {F : Pairing} {e e' : Expr} (h : e.Renames F e') (budget : Nat)
    (r : RunSetting) {s s' : RunState} (alike : s.Renames s') :
    SameOutcome (Run.evaluate budget e r s) (Run.evaluate budget e' r s') := by
  have free : ∀ (result : Except QueryError Value) (e : QueryError), result = .error e →
      ¬Run.renamings.excused e := fun _ _ _ => id
  rcases ran : Run.evaluate budget e r s with ⟨f | result, t⟩
  · rcases ran' : Run.evaluate budget e' r s' with ⟨f' | result', t'⟩
    · exact .faults
    · obtain ⟨_, _, other, -⟩ := h.symm.run_follows budget r r s' s rfl alike.symm _ _ ran' (free _)
      cases ran.symm.trans other
  · obtain ⟨result', t', ran', ends, alike'⟩ := h.run_follows budget r r s s' rfl alike _ _ ran (free _)
    rw [ran']
    exact .ends ends alike'

/-- Whatever stands in a unit can be copied. The copy is the same code up to the variables of its closures,
each of which is drawn for it and unknown to the unit, and it has the outcome of the original wherever both
are run. -/
theorem Query.copies_are_alike {options : Options} {requests : List BuildStep} {q₀ q : Query}
    (made : build options requests = .ok q₀)
    (stage : q = q₀ ∨ ∃ budget result, q₀.compile budget = (.ok result, q)) {body e : Expr}
    (has : q.HasBody body) (includes : body.Includes e) {start : Supply}
    (drawn : q.supply.nextVar ≤ start.nextVar) :
    ∃ e' t, e.copy .empty start = .ok (e', t) ∧ e'.size = e.size ∧ e.Renames Eq e' ∧
      e'.ownVars.Nodup ∧
      (∀ id ∈ e'.ownVars, ¬q.Mentions id ∧ start.nextVar ≤ id.index ∧ id.index < t.nextVar) ∧
      ∀ budget r s s', s.Renames s' →
        SameOutcome (Run.evaluate budget e r s) (Run.evaluate budget e' r s') := by
  have current := current_of_build made stage
  obtain ⟨known, listed, whole⟩ := current.body has
  obtain ⟨known, -, here⟩ := whole.included listed includes
  have copied : Gives (fun _ => False) start (e.copy .empty) fun e' t =>
      e.Renames Eq e' ∧ Drawn start t [e'] := e.copy_renames start (Renaming.empty_along known) here
  unfold Gives at copied
  rcases ran : e.copy .empty start with f | ⟨e', t⟩
  · rw [ran] at copied
    exact copied.elim
  · rw [ran] at copied
    obtain ⟨-, renames, fresh⟩ := copied
    have own : [e'].flatMap Expr.ownVars = e'.ownVars := List.flatMap_singleton ..
    have ⟨distinct, between⟩ := fresh
    rw [own] at distinct between
    refine ⟨e', t, rfl, renames.size_eq, renames, distinct, fun id mem => ⟨fun mentions => ?_,
      between id mem⟩, fun budget r s s' alike => renames.sameOutcome budget r alike⟩
    have early := current.index_lt mentions
    have late := (between id mem).1
    omega

/-- A function that gives a function. Both need a variable from outside, so they are still closures when
the unit is compiled. -/
def nested : Sample { inlineLimit := 0 } where
  requests :=
    [.main (.letIn "c" .focus (.dynamicCall false
      (.dynamicCall false
        (.function { params := [("x", none)] }
          (.function { params := [("y", none)] }
            (.arith .add (.arith .mul (.var "x") (.var "y")) (.var "c"))))
        [.datum (.int 4)])
      [.datum (.int 5)]))]
  made := by cbv
  compiled := by cbv

namespace nested

def unit : Query := (nested.query.compile 9).2

def start : RunState :=
  { RunState.start unit.supply unit.options .quiet (some (.int 3)) with stack := #[.empty] }

theorem unit_ran : nested.query.compile 9 = (.ok (.ok ()), unit) := eq_of_fst_eq nested.compiled

theorem answer : (Run.evaluate 9 unit.main unit.setting start).1 = .ok (.ok (.int 23)) := by cbv

end nested

/-- Its copy has five new variables and gives the same number. -/
theorem copies_are_alike_nested : ∃ e' t, nested.unit.main.copy .empty nested.unit.supply = .ok (e', t) ∧
    nested.unit.main.Renames Eq e' ∧ (∀ id ∈ e'.ownVars, ¬nested.unit.Mentions id) ∧
    ∃ u, Run.evaluate 9 e' nested.unit.setting nested.start = (.ok (.ok (.int 23)), u) := by
  obtain ⟨e', t, copied, -, renames, -, fresh, alike⟩ := Query.copies_are_alike nested.made
    (.inr ⟨9, _, nested.unit_ran⟩) (.inl rfl) .self (Nat.le_refl nested.unit.supply.nextVar)
  refine ⟨e', t, copied, renames, fun id mem => (fresh id mem).1, ?_⟩
  exact (alike 9 nested.unit.setting nested.start nested.start (.refl _)).int nested.answer

end QueryFunctions
