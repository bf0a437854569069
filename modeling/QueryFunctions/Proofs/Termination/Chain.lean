import QueryFunctions.Proofs.Law.Basic
import QueryFunctions.Query

/-! Chains of nested expansions. A dynamic call is expanded while the body that it came with is still
being put in place of another one, and so on inwards: the closures whose expansions are under way are a
chain. Here the compiler is run with a watch on these chains, which goes off where a closure is expanded
that is on the chain already. Whatever the alarm does then, it can be told from the result only if it
does go off; with an alarm that does nothing, this is the compiler itself. -/
namespace QueryFunctions

namespace Expr

/-- The closure to whose body a dynamic call is expanded. -/
def expanded? (o : Options) : Expr → Option Origin
  | .dynamicCall site (.value (.func item)) _ =>
    match item.code with
    | .builtin _ => none
    | .closure _ _ body _ => if Compile.inlinesItem site item body o then some item.origin else none
  | .dynamicCall site (.closure c) _ | .dynamicCall site (.literal _ c) _ =>
    if c.inlinable o && !site.inlinedFrom.contains c.origin then some c.origin else none
  | _ => none

theorem eq_dynamicCall_of_expanded? {o : Options} {e : Expr} {origin : Origin}
    (h : e.expanded? o = some origin) :
    ∃ site callee args, e = .dynamicCall site callee args ∧ origin ∉ site.inlinedFrom := by
  unfold expanded? at h
  split at h
  · split at h
    · cases h
    · obtain ⟨inlined, ⟨⟩⟩ := Option.ite_none_right_eq_some.1 h
      simp only [Compile.inlinesItem, Bool.and_eq_true, Bool.not_eq_true', List.contains_eq_mem,
        decide_eq_false_iff_not] at inlined
      exact ⟨_, _, _, rfl, inlined.1.1.2⟩
  · obtain ⟨inlined, ⟨⟩⟩ := Option.ite_none_right_eq_some.1 h
    exact ⟨_, _, _, rfl, by simpa using (Bool.and_eq_true_iff.1 inlined).2⟩
  · obtain ⟨inlined, ⟨⟩⟩ := Option.ite_none_right_eq_some.1 h
    exact ⟨_, _, _, rfl, by simpa using (Bool.and_eq_true_iff.1 inlined).2⟩
  · cases h

def simplifyWatched (alarm : Compile Expr → Compile Expr) :
    (budget : Nat) → (chain : List Origin) → Expr → Compile Expr
  | 0, _, _ => Compile.fault .budget
  | budget + 1, chain, e => do
    match e.expanded? (← read) with
    | none => e.simplifyWith (simplifyWatched alarm budget chain)
    | some origin =>
      let expansion := e.simplifyWith (simplifyWatched alarm budget (chain ++ [origin]))
      if chain.contains origin then alarm expansion else expansion

section

variable {alarm : Compile Expr → Compile Expr} {budget : Nat} {chain : List Origin} {e : Expr}
  {o : Options} {s : CompileState}

theorem simplifyWatched_of_none (h : e.expanded? o = none) :
    e.simplifyWatched alarm (budget + 1) chain o s =
      e.simplifyWith (simplifyWatched alarm budget chain) o s := by
  rw [simplifyWatched, Computation.run_bind, Computation.run_read]
  simp only [h]

theorem simplifyWatched_of_some {origin : Origin} (h : e.expanded? o = some origin) :
    e.simplifyWatched alarm (budget + 1) chain o s =
      (if chain.contains origin then
        alarm (e.simplifyWith (simplifyWatched alarm budget (chain ++ [origin])))
      else e.simplifyWith (simplifyWatched alarm budget (chain ++ [origin]))) o s := by
  rw [simplifyWatched, Computation.run_bind, Computation.run_read]
  simp only [h]

end

theorem simplifyWatched_id (budget : Nat) (chain : List Origin) :
    simplifyWatched id budget chain = simplify budget := by
  induction budget generalizing chain with
  | zero => rfl
  | succ budget ih =>
    funext e o s
    cases expanded : e.expanded? o with
    | none => rw [simplifyWatched_of_none expanded, ih, simplify]
    | some origin => rw [simplifyWatched_of_some expanded, ih, id, ite_self, simplify]

end Expr

namespace Compile

variable (simplify : Expr → Compile Expr)

def registeredWith (id : FuncId) : Compile Unit := do
  function simplify ((← get).registry.entries.length + 1) id

def expressionWith (e : Expr) : Compile Expr := do
  let depth := (← get).registry.entries.length + 1
  e.compileWith simplify (function simplify depth)

def mentionedWith : Compile Unit := do
  let entries := (← get).registry.entries.zipIdx.filter fun (e, _) => !e.calls.isEmpty && e.defined
  entries.forM fun (_, index) => registeredWith simplify ⟨index⟩
  modifyRegistry (·.propagateFlags)

end Compile

namespace Query

/-- The compiled main expression and all functions, with another simplifier. -/
def compileMainWith (simplify : Expr → Compile Expr) (main : Expr) : Compile Expr := do
  let main ← Compile.expressionWith simplify main
  Compile.mentionedWith simplify
  return main.refreshCalls (← get).registry.flagsOf

/-- Compiles the query, but its main expression and all functions by another computation. -/
def compileBy (compileMain : Compile Expr) (q : Query) :
    Except Fault (Except QueryError Unit) × Query :=
  match q.stage with
  | .compiled => (.ok (.ok ()), q)
  | .failed e => (.ok (.error e), q)
  | .built =>
    match q.check with
    | .error e => (.ok (.error e), { q with stage := .failed e })
    | .ok () =>
      let (result, state) := compileMain.outcome q.options ⟨q.supply, q.registry, q.scope⟩
      let q := { q with supply := state.supply, registry := state.registry, scope := state.scope }
      match result with
      | .error f => (.error f, q)
      | .ok (.error e) => (.ok (.error e), { q with stage := .failed e })
      | .ok (.ok main) => (.ok (.ok ()), { q with main, stage := .compiled })

def compileWith (simplify : Expr → Compile Expr) (q : Query) :
    Except Fault (Except QueryError Unit) × Query :=
  q.compileBy (compileMainWith simplify q.main)

/-- Compiles the query with a watch on the chains of nested expansions. -/
def compileWatched (alarm : Compile Expr → Compile Expr) (budget : Nat) (q : Query) :
    Except Fault (Except QueryError Unit) × Query :=
  q.compileWith (Expr.simplifyWatched alarm budget [])

theorem compile_eq (budget : Nat) (q : Query) : q.compile budget = q.compileWith (Expr.simplify budget) :=
  rfl

theorem compileWatched_id (budget : Nat) (q : Query) : q.compileWatched id budget = q.compile budget := by
  rw [compileWatched, Expr.simplifyWatched_id, compile_eq]

end Query

end QueryFunctions
