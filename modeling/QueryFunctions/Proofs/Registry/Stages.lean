import Mathlib.Logic.Relation
import QueryFunctions.Registry.Basic

/-! How the entries of a registry change while functions are compiled. Each function goes through its
stages in one order, one entry at a time, and what the registry says of calls and declarations stays. -/
namespace QueryFunctions

inductive CompileStage.Step : CompileStage → CompileStage → Prop
  | begin : Step .pending .compiling
  | finish : Step .compiling .compiled
  | fail {e} : Step .compiling (.failed e)

namespace CompileStage

variable {stage : CompileStage}

theorem eq_of_compiled (path : Relation.ReflTransGen Step .compiled stage) : stage = .compiled := by
  induction path with
  | refl => rfl
  | tail _ step ih =>
    subst ih
    cases step

end CompileStage

/-- What the registry says of a function, however far that is compiled. -/
def Entry.recorded (e : Entry) : Entry :=
  { e with body := none, scope := {}, stage := .pending, flags := {}, recursive := false }

namespace Entry

variable {e e' : Entry} (same : e'.recorded = e.recorded)

include same

theorem name_eq : e'.name = e.name :=
  show e'.recorded.name = e.recorded.name from congrArg Entry.name same

theorem declared_eq : e'.declared = e.declared :=
  show e'.recorded.declared = e.recorded.declared from congrArg Entry.declared same

theorem annotations_eq : e'.annotations = e.annotations :=
  show e'.recorded.annotations = e.recorded.annotations from congrArg Entry.annotations same

theorem arity_eq : e'.arity = e.arity :=
  show e'.recorded.arity = e.recorded.arity from congrArg Entry.arity same

theorem params_eq : e'.params = e.params :=
  show e'.recorded.params = e.recorded.params from congrArg Entry.params same

theorem calls_eq : e'.calls = e.calls :=
  show e'.recorded.calls = e.recorded.calls from congrArg Entry.calls same

theorem defined_eq : e'.defined = e.defined :=
  show e'.recorded.defined = e.recorded.defined from congrArg Entry.defined same

end Entry

namespace Registry

variable {r r' : Registry} {id : FuncId} {e : Entry}

theorem find?_update (r : Registry) (id id' : FuncId) (f : Entry → Entry) :
    (r.update id f).find? id' = if id' = id then (r.find? id').map f else r.find? id' := by
  unfold update find?
  rw [List.getElem?_modify]
  by_cases same : id' = id
  · simp [same]
  · have apart : id.index ≠ id'.index := fun eq => same (by cases id; cases id'; cases eq; rfl)
    simp [same, apart]

theorem find?_update_self (found : r.find? id = some e) (f : Entry → Entry) :
    (r.update id f).find? id = some (f e) := by
  rw [find?_update, if_pos rfl, found]
  rfl

/-- What the changed entry has, and all others had before, all have that are there afterwards. -/
theorem forall_update {P : FuncId → Entry → Prop} {f : Entry → Entry} (found : r.find? id = some e)
    (own : P id (f e)) (others : ∀ x e', x ≠ id → r.find? x = some e' → P x e') (x : FuncId) (e' : Entry)
    (here : (r.update id f).find? x = some e') : P x e' := by
  by_cases same : x = id
  · subst same
    cases (find?_update_self found f).symm.trans here
    exact own
  · rw [find?_update, if_neg same] at here
    exact others x e' same here

/-- The function is called or named somewhere. -/
def Mentions (r : Registry) (id : FuncId) : Prop := ∃ e, r.find? id = some e ∧ e.calls ≠ []

/-- The registry at most takes one entry one stage further. -/
structure Moves (r r' : Registry) : Prop where
  size : r'.entries.length = r.entries.length
  recorded : ∀ id e e', r.find? id = some e → r'.find? id = some e' → e'.recorded = e.recorded
  /-- The stages of all entries but one are the same. -/
  stages : ∃ moved, ∀ id e e', r.find? id = some e → r'.find? id = some e' →
    e'.stage = e.stage ∨ id = moved ∧ e.stage.Step e'.stage

theorem moves_update {f : Entry → Entry} (found : r.find? id = some e)
    (recorded : (f e).recorded = e.recorded)
    (stage : (f e).stage = e.stage ∨ e.stage.Step (f e).stage) : r.Moves (r.update id f) := by
  refine ⟨by simp [update], fun id' old new here there => ?_, id, fun id' old new here there => ?_⟩
  · rw [find?_update] at there
    split at there
    · rename_i same
      subst same
      cases found.symm.trans here
      rw [here] at there
      cases there
      exact recorded
    · cases here.symm.trans there
      rfl
  · rw [find?_update] at there
    split at there
    · rename_i same
      subst same
      cases found.symm.trans here
      rw [here] at there
      cases there
      exact stage.imp_right fun step => ⟨rfl, step⟩
    · cases here.symm.trans there
      exact .inl rfl

/-- From the first registry a path of single moves leads to the second. -/
abbrev Proceeds (r r' : Registry) : Prop := Relation.ReflTransGen Moves r r'

theorem Proceeds.find? (path : Proceeds r r') (found : r.find? id = some e) :
    ∃ e', r'.find? id = some e' ∧ e'.recorded = e.recorded ∧
      Relation.ReflTransGen CompileStage.Step e.stage e'.stage := by
  induction path with
  | refl => exact ⟨e, found, rfl, .refl⟩
  | @tail r₁ r₂ _ move ih =>
    obtain ⟨e₁, here, recorded, stages⟩ := ih
    have bound : id.index < r₂.entries.length := by
      rw [move.size]
      exact (List.getElem?_eq_some_iff.1 here).1
    have there : r₂.find? id = some r₂.entries[id.index] := List.getElem?_eq_getElem bound
    refine ⟨_, there, (move.recorded id _ _ here there).trans recorded, ?_⟩
    obtain ⟨moved, each⟩ := move.stages
    rcases each id _ _ here there with same | ⟨-, step⟩
    · rw [same]
      exact stages
    · exact stages.tail step

theorem Proceeds.origin (path : Proceeds r r') {e' : Entry} (found' : r'.find? id = some e') :
    ∃ e, r.find? id = some e ∧ e'.recorded = e.recorded ∧
      Relation.ReflTransGen CompileStage.Step e.stage e'.stage := by
  have size : r'.entries.length = r.entries.length := by
    clear found'
    induction path with
    | refl => rfl
    | tail _ move ih => exact move.size.trans ih
  have bound : id.index < r.entries.length := size ▸ (List.getElem?_eq_some_iff.1 found').1
  have found : r.find? id = some r.entries[id.index] := List.getElem?_eq_getElem bound
  obtain ⟨e, here, recorded, stages⟩ := path.find? found
  cases here.symm.trans found'
  exact ⟨_, found, recorded, stages⟩

theorem Proceeds.mentions (path : Proceeds r r') (mentions : r.Mentions id) : r'.Mentions id := by
  obtain ⟨e, found, calls⟩ := mentions
  obtain ⟨e', found', recorded, -⟩ := path.find? found
  exact ⟨e', found', Entry.calls_eq recorded ▸ calls⟩

end Registry

end QueryFunctions
