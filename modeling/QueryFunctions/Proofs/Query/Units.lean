import QueryFunctions.Proofs.Build.Surface
import QueryFunctions.Proofs.Registry.Settlement

/-! Query units: what a host asks of a builder, and the query that comes of it. A unit that passes its
check meets every standard that knows its annotations and its mentions, so it is ready to run once it
is compiled. -/
namespace QueryFunctions

/-- A request to a builder. -/
inductive BuildStep where
  | moveTo (span : Span)
  | declare (signature : Signature) (body : Surface)
  | main (expr : Surface)

/-- The state after a request, and the main expression. An error leaves the main expression as it
was. -/
def BuildStep.run (step : BuildStep) (s : BuildState) (main : Expr) :
    Except Fault (BuildState × Expr) :=
  match step with
  | .moveTo span => .ok ({ s with span }, main)
  | .declare signature body =>
    match (Build.declare signature (body.build none)).outcome s with
    | (.error f, _) => .error f
    | (.ok _, t) => .ok (t, main)
  | .main expr =>
    match (expr.build none).outcome s with
    | (.error f, _) => .error f
    | (.ok (.error _), t) => .ok (t, main)
    | (.ok (.ok e), t) => .ok (t, e)

namespace Query

def build (options : Options) (steps : List BuildStep) : Except Fault Query := do
  let (s, main) ← steps.foldlM (fun (s, main) step => BuildStep.run step s main) ({}, .empty)
  return .ofBuild options s main

/-- The unit that requests make, or an empty one if a request meets a fault. -/
def ofRequests (options : Options) (requests : List BuildStep) : Query :=
  match build options requests with
  | .ok q => q
  | .error _ => .ofBuild options {} .empty

/-- The raw code of a unit: the main expression or the body of a function. -/
def HasBody (q : Query) (e : Expr) : Prop :=
  e = q.main ∨ ∃ id entry, q.registry.find? id = some entry ∧ entry.body = some e

/-- A unit as it leaves the builder. -/
structure Built (q : Query) : Prop where
  stage : q.stage = .built
  scope : q.scope.Proper q.supply
  functions : q.registry.Raw q.supply
  main : q.main.Raw q.registry q.supply q.scope

/-- A unit all of whose code is a draft. -/
structure Drafted (exact : Prop) (q : Query) : Prop where
  stage : q.stage = .built
  scope : q.scope.Sound q.supply
  functions : q.registry.Draft exact q.supply
  main : q.main.Draft q.registry exact (.ofBody q.scope [] [] q.supply)

end Query

namespace BuildStep

/-- All partial applications have their placeholders among their arguments. -/
def named : BuildStep → Bool
  | .moveTo _ => true
  | .declare _ body => body.named
  | .main expr => expr.named

variable {exact : Prop} {s : BuildState} {main : Expr}

theorem empty_formed (exact : Prop) :
    ({} : BuildState).Formed exact ∧ ({} : BuildState).Holds exact .empty := by
  refine ⟨⟨⟨fun f mem => ?_, .singleton _, List.pairwise_singleton _ _⟩,
    fun id e found => by simp [Registry.find?] at found, Registry.inStep_empty⟩,
    .value ⟨fun d => Value.meets_empty, fun w => Value.formed_empty, fun f has => ?_⟩⟩
  · rw [List.mem_singleton.1 mem]
    exact (Frame.Begins.empty false {}).formed
  · cases has with
    | member none => cases none

theorem run_formed (step : BuildStep) (named : exact → step.named = true) (hs : s.Formed exact)
    (hmain : s.Holds exact main) : ∃ t e, step.run s main = .ok (t, e) ∧ t.Formed exact ∧
      t.Holds exact e ∧ s.Grows t := by
  cases step with
  | moveTo span =>
    exact ⟨_, _, rfl, ⟨hs.frames, hs.functions⟩, hmain, Nat.le_refl _, .refl _, .refl _, .inl⟩
  | declare signature body =>
    have kept := Build.declare_keeps hs signature fun t ht => Surface.build_makes none body named t ht
    change (buildContract exact).Admits s _ (Build.declare signature (body.build none) s) at kept
    unfold run Build.outcome
    dsimp only
    generalize Build.declare signature (body.build none) s = outcome at kept
    obtain ⟨f | e | id, t⟩ := outcome
    · exact kept.2.elim
    · exact ⟨t, main, rfl, kept.1, kept.2.1.holds hmain, kept.2.1⟩
    · exact ⟨t, main, rfl, kept.1, kept.2.1.holds hmain, kept.2.1⟩
  | main expr =>
    have kept := Surface.build_makes none expr named s hs
    change (buildContract exact).Admits s _ (expr.build none s) at kept
    unfold run Build.outcome
    dsimp only
    generalize expr.build none s = outcome at kept
    obtain ⟨f | e | made, t⟩ := outcome
    · exact kept.2.elim
    · exact ⟨t, main, rfl, kept.1, kept.2.1.holds hmain, kept.2.1⟩
    · exact ⟨t, made, rfl, kept.1, kept.2.2, kept.2.1⟩

theorem foldlM_formed (steps : List BuildStep) (named : exact → ∀ step ∈ steps, step.named = true)
    (hs : s.Formed exact) (hmain : s.Holds exact main) :
    ∃ t e, steps.foldlM (fun (s, main) step => BuildStep.run step s main) (s, main) =
      Except.ok (t, e) ∧ t.Formed exact ∧ t.Holds exact e ∧ s.Grows t := by
  induction steps generalizing s main with
  | nil => exact ⟨s, main, rfl, hs, hmain, .refl s⟩
  | cons step steps ih =>
    obtain ⟨t, e, first, ht, he, grows⟩ :=
      step.run_formed (fun h => named h step List.mem_cons_self) hs hmain
    obtain ⟨u, e', rest, hu, he', grows'⟩ :=
      ih (fun h x mem => named h x (List.mem_cons_of_mem _ mem)) ht he
    refine ⟨u, e', ?_, hu, he', grows.trans grows'⟩
    rw [List.foldlM_cons]
    simp only [first, bind, Except.bind]
    exact rest

end BuildStep

namespace Query

theorem build_drafted (options : Options) {requests : List BuildStep} {exact : Prop}
    (named : exact → ∀ request ∈ requests, request.named = true) :
    ∃ q, build options requests = .ok q ∧ q.options = options ∧ q.Drafted exact := by
  obtain ⟨empty, start⟩ := BuildStep.empty_formed exact
  obtain ⟨s, main, ran, hs, hmain, grows⟩ := BuildStep.foldlM_formed requests named empty start
  have frame := hs.frames.each s.frame List.mem_cons_self
  obtain ⟨serves, le⟩ := (Frame.Begins.empty false {}).ends grows.frame frame s.outer
  rw [frame.closed grows.frame.capturing] at le
  have alone := (hmain.mono (.refl _) le).mono (.refl _) (Place.le_within False.elim)
  refine ⟨.ofBuild options s main, ?_, rfl, rfl, frame.sound, hs.functions, alone⟩
  unfold build
  rw [ran]
  rfl

theorem Drafted.built {q : Query} {exact : Prop} (drafted : q.Drafted exact) : q.Built :=
  ⟨drafted.stage, ⟨drafted.scope.laid, drafted.scope.fresh⟩,
    fun id e found => (drafted.functions.entries id e found).raw, drafted.main.raw⟩

theorem drafted_of_build {options : Options} {requests : List BuildStep} {q : Query}
    (made : build options requests = .ok q) : q.options = options ∧ q.Drafted False := by
  have named : False → ∀ request ∈ requests, request.named = true := False.elim
  obtain ⟨q', same, options, drafted⟩ := build_drafted options named
  cases same.symm.trans made
  exact ⟨options, drafted⟩

theorem built_of_build {options : Options} {steps : List BuildStep} {q : Query}
    (made : build options steps = .ok q) : q.Built ∧ q.options = options := by
  obtain ⟨same, drafted⟩ := drafted_of_build made
  exact ⟨drafted.built, same⟩

end Query

structure Sample (options : Options) where
  requests : List BuildStep
  query : Query := .ofRequests options requests
  made : Query.build options requests = .ok query
  compiled : (query.compile 9).1 = .ok (.ok ())

def Sample.start {options : Options} (u : Sample options) : RunState :=
  .start u.query.supply options .quiet none

theorem Registry.mentions_of_any {r : Registry} {id : FuncId}
    (called : (r.find? id).any (!·.calls.isEmpty) = true) : r.Mentions id := by
  obtain ⟨e, found, called⟩ := (Option.any_eq_true ..).1 called
  exact ⟨e, found, by simpa using called⟩

theorem eq_of_fst_eq {α β : Type} {p : α × β} {a : α} (h : p.1 = a) : p = (a, p.2) := Prod.ext h rfl

end QueryFunctions
