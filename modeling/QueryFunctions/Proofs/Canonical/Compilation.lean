import QueryFunctions.Proofs.Canonical.Simplify
import QueryFunctions.Proofs.Compile.Pact
import QueryFunctions.Proofs.Form.Functions
import QueryFunctions.Proofs.Registry.Propagation
import QueryFunctions.Query

/-! Units whose constants are canonical compile to such units. A function that is taken up has no body until
it is done, so the registry has canonical bodies all along, also where a compilation ends with an error. -/
namespace QueryFunctions

theorem Registry.Canonical.update {r : Registry} (h : r.Canonical) {id : FuncId} {f : Entry → Entry}
    (own : ∀ e, r.find? id = some e → ∀ body, (f e).body = some body → body.Canonical) :
    (r.update id f).Canonical := by
  intro x e found body present
  rw [find?_update] at found
  split at found
  · rename_i same
    subst same
    obtain ⟨e', there, rfl⟩ := Option.map_eq_some_iff.1 found
    exact own e' there body present
  · exact h x e found body present

theorem Registry.Canonical.propagateFlags {r : Registry} (h : r.Canonical) : r.propagateFlags.Canonical := by
  intro id e found body present
  rw [find?_propagateFlags] at found
  obtain ⟨e', there, rfl⟩ := Option.map_eq_some_iff.1 found
  dsimp only at present
  split at present
  · obtain ⟨body', present', rfl⟩ := Option.map_eq_some_iff.1 present
    exact (h id e' there body' present').mapSites _ _
  · exact h id e' there body present

variable {o : Options} {s : CompileState}

def PrepareRefines (o : Options) (prepare : FuncId → Compile Unit) : Prop :=
  ∀ id s, s.registry.Canonical → Compile.Refines o s (prepare id) fun _ => True

theorem canonicalPact_compilers (budget : Nat) {prepare : FuncId → Compile Unit}
    (prepares : PrepareRefines o prepare) :
    canonicalPact.Compilers o Expr.Canonical (fun _ e => e.Canonical) (fun _ _ => True)
      (Expr.simplify budget) (Expr.simplify budget) prepare prepare where
  part he mem := he.part mem
  later _ he := he
  remains _ _ := trivial
  enter _ hs := hs
  leave _ := trivial
  near _ := trivial
  refine _ _ _ := trivial
  ready _ he _ := he
  var _ ref := Expr.canonical_var ref
  error _ err := Expr.canonical_error err
  coerce _ _ he := he.coerce _ _
  keepTail _ he := he.keepTail _
  prepares _ _ hs := prepares _ _ hs
  simplifies hs code _ _ parts := (Expr.simplify_refines o budget).remade hs code parts
  literals _ _ _ _ ht _ hc := (Expr.simplify_refines o budget).remade ht (by nofun) hc.parts

namespace Compile

theorem finishFunction_refines (hs : s.registry.Canonical) (id : FuncId) (scope : Scope)
    {result : Except QueryError Expr} (made : ∀ e, result = .ok e → e.Canonical) :
    Refines o s (finishFunction id scope result) fun _ => True := by
  cases result with
  | error err =>
    have ht : (s.registry.update id fun entry => { entry with scope, stage := .failed err }).Canonical :=
      hs.update fun e found body present => hs id e found body present
    refine .same fun result t run => ?_
    cases run
    exact ⟨ht, trivial, nofun⟩
  | ok body =>
    have ht : (s.registry.update id (Entry.finished o id scope body)).Canonical := by
      refine hs.update fun e _ body' present => ?_
      cases present
      exact ((made body rfl).coerce _ _).keepTail _
    exact .of_eq (a := ()) rfl ht trivial trivial

theorem function_refines (budget depth : Nat) : PrepareRefines o (function (Expr.simplify budget) depth) := by
  induction depth with
  | zero => exact fun _ _ _ => .same (.of_fault rfl)
  | succ depth ih =>
    intro id s hs
    refine (Pact.Keeps.entryOf hs id).bind fun e t ht _ here => ?_
    obtain ⟨found, rfl⟩ := here
    split
    · exact .pure ht trivial
    · have hu : (t.registry.update id fun e => { e with recursive := true }).Canonical :=
        ht.update fun e found body present => ht id e found body present
      exact .of_eq (a := ()) rfl hu trivial trivial
    · exact .throw ht
    · split
      · exact .throw ht
      · rename_i body present
        have hbody : body.Canonical := ht id e found body present
        have hu : (t.begun id).registry.Canonical := ht.update fun _ _ _ => nofun
        have compiles := (canonicalPact_compilers (o := o) budget ih).compileWith body
          { t.begun id with scope := e.scope } hu hbody
        have begins : canonicalPact.Keeps o t (modifyRegistry (·.update id fun entry =>
            { entry with stage := .compiling, body := none, scope := {} })) _ fun _ u => u = t.begun id :=
          .of_eq (a := ()) rfl hu trivial rfl
        refine begins.bind fun _ u _ _ same => ?_
        subst same
        refine Pact.Keeps.bind (inScope_refines e.scope compiles) fun x v hv _ hx => ?_
        exact finishFunction_refines hv id x.2 hx

theorem compileMain_refines {main : Expr} (budget : Nat) (hs : s.registry.Canonical)
    (hmain : main.Canonical) : Refines o s (Query.compileMain budget main) Expr.Canonical := by
  have expression : Refines o s (expression budget main) Expr.Canonical :=
    (Pact.Keeps.get hs).skip fun u t ht _ =>
      (canonicalPact_compilers budget (function_refines budget _)).compileWith main t ht hmain
  refine expression.bind fun main' t ht _ hmain' => ?_
  have functions : Refines o t (mentioned budget) fun _ => True := by
    refine (Pact.Keeps.get ht).skip fun v u hu _ => ?_
    refine (Pact.Keeps.forM (fun x w hw => ?_) _ u hu).skip fun _ w hw _ => ?_
    · exact (Pact.Keeps.get hw).skip fun _ w' hw' _ => function_refines budget _ _ w' hw'
    · exact .of_eq (a := ()) rfl hw.propagateFlags trivial trivial
  refine functions.skip fun _ u hu _ => (Pact.Keeps.get hu).skip fun v w hw _ => ?_
  exact .pure hw (hmain'.mapSites _ _)

end Compile

namespace Query

structure Canonical (q : Query) : Prop where
  functions : q.registry.Canonical
  main : q.main.Canonical

theorem Canonical.compile {q p : Query} {budget : Nat} {result : Except QueryError Unit}
    (h : q.Canonical) (run : q.compile budget = (.ok result, p)) : p.Canonical := by
  unfold Query.compile at run
  split at run
  · cases run
    exact h
  · cases run
    exact h
  · split at run
    · cases run
      exact ⟨h.functions, h.main⟩
    · have kept := (Compile.compileMain_refines (o := q.options) (s := ⟨q.supply, q.registry, q.scope⟩) budget
        h.functions h.main).law
      dsimp only [Compile.outcome] at run
      rcases made : compileMain budget q.main q.options ⟨q.supply, q.registry, q.scope⟩ with ⟨f | e | main, t⟩
      · rw [made] at run
        cases run
      · rw [made] at run
        cases run
        exact ⟨(kept _ _ made).1, h.main⟩
      · rw [made] at run
        cases run
        obtain ⟨functions, -, value⟩ := kept _ _ made
        exact ⟨functions, value main rfl⟩

end Query

end QueryFunctions
