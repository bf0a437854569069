import QueryFunctions.Proofs.Form.Evaluation
import QueryFunctions.Proofs.Query.Units
import QueryFunctions.Proofs.Form.Basic

/-! The world of a query unit: the functions that it mentions, and the errors that the builder was given to
store. Units are fit to be compiled there, and afterwards all their function bodies are well formed in the
scopes that they are run with. -/
namespace QueryFunctions

namespace Query

/-- The builder stored the error in an expression that raises it. -/
def Stores (q : Query) (err : QueryError) : Prop := ∃ body, q.HasBody body ∧ Expr.error err ∈ body.nodes

/-- In the world of a unit no resolution fails, but where that is what an expression is to raise. -/
def world (q : Query) (exact : Prop) (apart : Prop := False) : World where
  calls := q.registry.Calls
  error err := err.isResolution = false ∨ q.Stores err
  exact
  apart
  common _ := .inl

variable {q : Query} {exact apart : Prop}

theorem Drafted.formed_main (drafted : q.Drafted exact) :
    q.main.Formed (q.world exact apart) (.ofBody q.scope [] [] q.supply) :=
  drafted.main.formed (fun _ _ h => h) (fun h => h) fun _ mem => .inr ⟨q.main, .inl rfl, mem⟩

theorem Drafted.fit (drafted : q.Drafted exact) {focus : Prop}
    (sees : q.main.seesFocus = true → focus) : q.Fit (q.world exact apart) focus where
  stage := drafted.stage
  pending id e found := (drafted.functions.entries id e found).pending
  functions id e found defined := (drafted.functions.entries id e found).formed (fun _ _ h => h) (fun h => h)
    defined fun body _ present mem => .inr ⟨body, .inr ⟨id, e, found, present⟩, mem⟩
  calls _ _ := .rfl
  scope := drafted.scope
  main := drafted.formed_main.onto
    ⟨.refl _, Nat.le_refl _, fun _ _ => id, fun h _ => sees h, fun h => h, .inl⟩

theorem Drafted.compiled (drafted : q.Drafted exact) {focus : Prop}
    (sees : q.main.seesFocus = true → focus) {budget : Nat}
    (compiled : (q.compile budget).1 = .ok (.ok ())) :
    (q.compile budget).2.Compiled (q.world exact apart) focus := by
  have fit : q.Fit (q.world exact apart) focus := drafted.fit sees
  have ended := (fit.compile budget).2
  rw [compiled] at ended
  exact ended

theorem stage_of_compiled {budget : Nat} (compiled : (q.compile budget).1 = .ok (.ok ())) :
    (q.compile budget).2.stage = .compiled := by
  unfold compile at compiled ⊢
  split
  · assumption
  · simp_all
  · split
    · simp_all
    · rename_i stage _ checked
      simp only [stage, checked] at compiled
      dsimp only
      split
      · rename_i result
        rw [result] at compiled
        cases compiled
      · rename_i result
        rw [result] at compiled
        cases compiled
      · rfl

theorem execute_of_compiled {budget : Nat} (compiled : (q.compile budget).1 = .ok (.ok ()))
    (steps : Nat) (host : Host) (focus : Option Value) :
    let p := (q.compile budget).2
    (p.execute steps host focus).1 =
      ((p.runMain steps).outcome p.setting (.start p.supply p.options host focus)).1 := by
  intro p
  unfold execute
  rw [compile_of_compiled steps p (stage_of_compiled compiled)]

/-- A body of the unit, as it may be run: in a frame for that scope, with those parameters and captured
variables. -/
inductive Activates (q : Query) : Scope → List VarId → List VarId → Expr → Prop
  | main : Activates q q.scope [] [] q.main
  | function {id e body} : q.registry.find? id = some e → e.body = some body →
    Activates q e.scope e.params [] body
  | closure {root c} : q.HasBody root → root.Includes (.closure c) →
    Activates q c.scope c.params (c.captures.map Prod.fst) c.body
  | literal {root site c} : q.HasBody root → root.Includes (.literal site c) →
    Activates q c.scope c.params (c.captures.map Prod.fst) c.body
  | item {root v f params captured body scope} : q.HasBody root → root.Includes (.value v) →
    v.HasItem f → f.code = .closure params captured body scope →
    Activates q scope (params.map (·.id)) (captured.map (·.1.id)) body

variable {q : Query} {w : World} {focus : Prop}

theorem Compiled.formed_of_hasBody (compiled : q.Compiled w focus) {body : Expr}
    (has : q.HasBody body) : ∃ p, body.Formed w p := by
  rcases has with rfl | ⟨id, e, found, present⟩
  · exact ⟨_, compiled.main⟩
  · exact ⟨_, (compiled.functions id e found).body body present⟩

theorem Compiled.formed_of_includes (compiled : q.Compiled w focus) {root e : Expr}
    (has : q.HasBody root) (includes : root.Includes e) : ∃ p, e.Formed w p := by
  obtain ⟨_, hroot⟩ := compiled.formed_of_hasBody has
  exact hroot.included includes

/-- Each body is well formed in its own scope, which has a slot for everything that the body names. -/
theorem Compiled.activated (compiled : q.Compiled w focus) {scope : Scope}
    {params captured : List VarId} {body : Expr} (bears : q.Activates scope params captured body) :
    ∃ supply, scope.Serves supply params captured ∧
      body.Formed w (.ofBody scope params captured supply) := by
  have ofClosure : ∀ {p : Place} {c : Closure}, c.Formed w p → ∃ supply,
      c.scope.Serves supply c.params (c.captures.map Prod.fst) ∧ c.body.Formed w (c.place supply) := by
    intro p c hc
    have body := hc.body
    cases hc with
    | intro serves => exact ⟨_, serves, body⟩
  cases bears with
  | main =>
    exact ⟨q.supply, ⟨compiled.scope, by simp, by simp⟩, compiled.main.mono
      ⟨.refl _, Nat.le_refl _, id, fun _ => trivial, id, .inl⟩⟩
  | @function id e _ found present =>
    have he := compiled.functions id e found
    exact ⟨q.supply, he.scope body present, (he.body body present).mono
      ⟨.refl _, Nat.le_refl _, fun h => h, fun _ => trivial, fun h => h, .inl⟩⟩
  | closure has includes =>
    obtain ⟨_, he⟩ := compiled.formed_of_includes has includes
    cases he with
    | closure hc => exact ofClosure hc
  | literal has includes =>
    obtain ⟨_, he⟩ := compiled.formed_of_includes has includes
    cases he with
    | literal _ _ hc => exact ofClosure hc
  | item has includes within code =>
    obtain ⟨_, he⟩ := compiled.formed_of_includes has includes
    cases he with
    | value hv => exact (hv.item within).body code

end Query

end QueryFunctions
