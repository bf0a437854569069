import Mathlib
import QueryFunctions.Proofs.Query.Units
import QueryFunctions.Proofs.Recursion.Functions

/-! Recursion in compiled units. A function that leads back to itself is compiled once for all its calls,
so somewhere on the way a call has to stay a call. -/
namespace QueryFunctions

open Relation

namespace Expr.Draft

variable {r : Registry} {exact : Prop} {p : Place} {e : Expr}

theorem part (h : e.Draft r exact p) {x : Expr} (mem : x ∈ e.parts) : ∃ q, x.Draft r exact q := by
  cases h with
  | value | var | focus | error => cases mem
  | letIn _ _ hbound hbody =>
    obtain rfl | rfl : x = _ ∨ x = _ := by simpa [parts] using mem
    · exact ⟨_, hbound⟩
    · exact ⟨_, hbody⟩
  | branch hcond hyes hno =>
    obtain rfl | rfl | rfl : x = _ ∨ x = _ ∨ x = _ := by simpa [parts] using mem
    · exact ⟨_, hcond⟩
    · exact ⟨_, hyes⟩
    · exact ⟨_, hno⟩
  | arith hl hr | compare hl hr =>
    obtain rfl | rfl : x = _ ∨ x = _ := by simpa [parts] using mem
    · exact ⟨_, hl⟩
    · exact ⟨_, hr⟩
  | treat h => exact ⟨_, List.mem_singleton.1 mem ▸ h⟩
  | seq all | builtin all | call _ all => exact ⟨_, all x mem⟩
  | closure _ _ _ hcaptures hbody =>
    rcases List.mem_append.1 mem with captured | body
    · obtain ⟨q, here, rfl⟩ := List.mem_map.1 captured
      exact ⟨_, hcaptures q here⟩
    · exact ⟨_, List.mem_singleton.1 body ▸ hbody⟩
  | @literal _ site c inner refs called _ _ none _ _ same body length hrefs =>
    rw [parts, none, body] at mem
    cases List.mem_singleton.1 mem
    refine ⟨.ofBody c.scope c.params [] p.supply, .call ?_ (List.forall_mem_map.2 fun ref mem => ?_)⟩
    · rw [same, List.length_map, length]
      exact called
    · exact .var (.inl (hrefs ref mem).1) (hrefs ref mem).2
  | partialApply _ h all | dynamicCall h all =>
    rcases List.mem_cons.1 mem with rfl | mem
    · exact ⟨_, h⟩
    · exact ⟨_, all x mem⟩

theorem untouched (h : e.Draft r exact p) : e.Untouched := by
  have inherited : ∀ x : Expr, (∃ q, x.Draft r exact q) → ∀ y ∈ x.parts, ∃ q, y.Draft r exact q :=
    fun x ⟨_, hx⟩ y mem => hx.part mem
  have all {x : Expr} (mem : x ∈ e.nodes) : ∃ q, x.Draft r exact q :=
    of_mem_nodes inherited e ⟨p, h⟩ mem
  refine ⟨fun v mem => ?_, fun c mem => ?_, fun site c mem => ?_⟩
  · obtain ⟨_, hv⟩ := all mem
    cases hv with
    | value plain => exact Value.within_of_plain plain.builtin
  · obtain ⟨_, hc⟩ := all mem
    cases hc with
    | closure raw => exact raw
  · obtain ⟨_, hc⟩ := all mem
    cases hc with
    | literal _ _ raw => exact raw

end Expr.Draft

namespace Registry

variable {r : Registry} {D : FuncId → FuncId → Prop} {id callee : FuncId}

theorem recursive_propagateFlags : r.propagateFlags.Recursive id ↔ r.Recursive id := by
  unfold Recursive
  rw [find?_propagateFlags]
  cases r.find? id <;> simp

theorem Links.of_propagateFlags (h : r.propagateFlags.Links id callee) : r.Links id callee := by
  obtain ⟨⟨e, found, compiled⟩, e', body, found', present, names⟩ := h
  cases found.symm.trans found'
  rw [find?_propagateFlags] at found
  obtain ⟨old, here, rfl⟩ := Option.map_eq_some_iff.1 found
  refine ⟨⟨old, here, compiled⟩, old, ?_⟩
  dsimp only at present
  split at present
  · obtain ⟨raw, kept, rfl⟩ := Option.map_eq_some_iff.1 present
    have same : raw.Within raw.Names := fun _ names => names
    exact ⟨raw, here, kept, same.refreshCalls _ _ names⟩
  · exact ⟨body, here, present, names⟩

theorem not_cycle_of_acc (grounded : Acc r.Descends id) :
    ¬TransGen (fun id callee => r.Descends callee id) id id := by
  induction grounded with
  | intro id _ ih =>
    intro cycle
    obtain ⟨callee, step, path⟩ := TransGen.head'_iff.1 cycle
    exact ih callee step (.tail' path step)

theorem descends_of_chain (path : List FuncId) {last : FuncId}
    (chain : List.IsChain r.Links (id :: path ++ [last]))
    (plain : ∀ x ∈ path ++ [last], ¬r.Recursive x) :
    TransGen (fun id callee => r.Descends callee id) id last := by
  induction path generalizing id with
  | nil =>
    obtain ⟨link, -⟩ := List.isChain_cons_cons.1 chain
    exact .single ⟨link, plain last (by simp)⟩
  | cons next path ih =>
    obtain ⟨link, rest⟩ := List.isChain_cons_cons.1 chain
    refine .head ⟨link, plain next (by simp)⟩ (ih rest fun x mem => plain x ?_)
    exact List.mem_cons_of_mem _ mem

theorem Cut.recursive_of_cycle (cut : r.Cut D) (path : List FuncId)
    (chain : List.IsChain r.Links (id :: path ++ [id])) : ∃ x ∈ id :: path, r.Recursive x := by
  by_contra none
  have plain : ∀ x ∈ path ++ [id], ¬r.Recursive x :=
    fun x mem recursive => none ⟨x, by simpa [or_comm] using mem, recursive⟩
  have cycle := descends_of_chain path chain plain
  obtain ⟨callee, ⟨⟨compiled, -⟩, -⟩, -⟩ := TransGen.head'_iff.1 cycle
  obtain ⟨e, found, done⟩ := compiled
  exact not_cycle_of_acc ((cut id e found).grounded done) cycle

end Registry

namespace Query

variable {q : Query} {exact : Prop} {kept : FuncId → Bool} {o : Options} {s : CompileState}
  {D : FuncId → FuncId → Prop} {alarm : Compile Expr → Compile Expr} {budget : Nat} {main : Expr}

theorem Drafted.cut (drafted : q.Drafted exact) :
    CompileState.Cut q.registry.Uses (fun _ => False) ⟨q.supply, q.registry, q.scope⟩ := by
  refine ⟨fun id e found => ?_, fun id e found => ?_⟩
  · have draft := drafted.functions.entries id e found
    refine ⟨fun _ body present => ?_, fun compiled => ?_, fun begun => ?_, fun mark => ?_, fun compiled => ?_⟩
    · exact ⟨(draft.body body present).untouched, fun _ names => ⟨e, body, found, present, names⟩⟩
    · cases draft.pending.symm.trans compiled
    · exact absurd draft.pending begun
    · cases draft.unmarked.symm.trans mark
    · cases draft.pending.symm.trans compiled
  · simp [(drafted.functions.entries id e found).pending]

def reachedWith (simplify : Expr → Compile Expr) (main : Expr) : Compile Expr := do
  let main ← Compile.expressionWith simplify main
  let entries := (← get).registry.entries.zipIdx.filter fun (e, _) => !e.calls.isEmpty && e.defined
  entries.forM fun (_, index) => Compile.registeredWith simplify ⟨index⟩
  return main

theorem compileMainWith_eq (simplify : Expr → Compile Expr) (main : Expr) :
    compileMainWith simplify main = do
      let main ← reachedWith simplify main
      Compile.modifyRegistry (·.propagateFlags)
      return main.refreshCalls (← get).registry.flagsOf := by
  simp only [compileMainWith, reachedWith, Compile.mentionedWith, bind_assoc, pure_bind]

theorem reachedWith_cuts (hs : s.Cut D fun _ => False) (raw : main.Untouched) :
    (cutPact D kept o fun _ => False).Keeps o s (reachedWith (Expr.simplify budget) main)
      (reachedWith (Expr.simplifyGuarded kept alarm budget) main) fun _ _ => True := by
  refine (Compile.expressionWith_cuts hs raw).skip fun main' t ht _ => ?_
  refine (Pact.Keeps.get ht).bind fun _ u hu _ same => ?_
  obtain ⟨rfl, rfl⟩ := same
  refine (Pact.Keeps.forM (fun _ v hv => Compile.registeredWith_cuts hv) _ u hu).skip
    fun _ v hv _ => .pure hv trivial

theorem compileMainWith_of_reached {simplify : Expr → Compile Expr} {reached : Expr} {t : CompileState}
    (run : reachedWith simplify main o s = (.ok (.ok reached), t)) :
    (compileMainWith simplify main).outcome o s =
      (.ok (.ok (reached.refreshCalls t.registry.propagateFlags.flagsOf)),
        { t with registry := t.registry.propagateFlags }) := by
  rw [Compile.outcome, compileMainWith_eq, Computation.run_bind, run]
  rfl

theorem compileWith_of_reached {simplify : Expr → Compile Expr} {reached : Expr} {t : CompileState}
    (built : q.stage = .built) (checked : q.check = .ok ())
    (run : reachedWith simplify q.main q.options ⟨q.supply, q.registry, q.scope⟩ = (.ok (.ok reached), t)) :
    q.compileWith simplify = (.ok (.ok ()), { q with
      supply := t.supply
      registry := t.registry.propagateFlags
      scope := t.scope
      main := reached.refreshCalls t.registry.propagateFlags.flagsOf
      stage := .compiled }) := by
  unfold compileWith compileBy
  rw [built]
  dsimp only
  rw [checked]
  dsimp only
  rw [compileMainWith_of_reached run]

theorem reached_of_compiled {simplify : Expr → Compile Expr} (built : q.stage = .built)
    (compiled : (q.compileWith simplify).1 = .ok (.ok ())) : q.check = .ok () ∧ ∃ reached t,
      reachedWith simplify q.main q.options ⟨q.supply, q.registry, q.scope⟩ = (.ok (.ok reached), t) := by
  unfold compileWith compileBy at compiled
  rw [built] at compiled
  dsimp only at compiled
  split at compiled
  · cases compiled
  rename_i checked
  refine ⟨checked, ?_⟩
  rcases run : reachedWith simplify q.main q.options ⟨q.supply, q.registry, q.scope⟩ with
    ⟨f | err | reached, t⟩
  · rw [Compile.outcome, compileMainWith_eq, Computation.run_bind, run] at compiled
    cases compiled
  · rw [Compile.outcome, compileMainWith_eq, Computation.run_bind, run] at compiled
    cases compiled
  · exact ⟨reached, t, rfl⟩

theorem Drafted.reached (drafted : q.Drafted exact) (compiled : (q.compile budget).1 = .ok (.ok ())) :
    ∃ t : CompileState, t.registry.Cut q.registry.Uses ∧
      (q.compile budget).2.registry = t.registry.propagateFlags ∧
      ∀ kept alarm, t.registry.Withholds kept q.options →
        q.compileWith (Expr.simplifyGuarded kept alarm budget) = q.compile budget := by
  have pact (kept : FuncId → Bool) (alarm : Compile Expr → Compile Expr) :
      (cutPact q.registry.Uses kept q.options fun _ => False).Keeps q.options
        ⟨q.supply, q.registry, q.scope⟩ (reachedWith (Expr.simplify budget) q.main)
        (reachedWith (Expr.simplifyGuarded kept alarm budget) q.main) fun _ _ => True :=
    reachedWith_cuts drafted.cut drafted.main.untouched
  obtain ⟨checked, reached, t, run⟩ := reached_of_compiled drafted.stage compiled
  have plain := compileWith_of_reached drafted.stage checked run
  rw [compile_eq, plain]
  refine ⟨t, ((pact (fun _ => false) id).law _ _ run).1.registry, rfl, fun kept alarm withholds => ?_⟩
  exact compileWith_of_reached drafted.stage checked ((pact kept alarm).follows _ _ run withholds)

end Query

/-- Every recursive cycle is cut. However functions were reached, each cycle of the compiled bodies, where
these call or name functions anywhere inside, goes through a recursive function, and each recursive function
is on a cycle of the bodies as declared. A guard on recursive functions makes no difference to compilation,
whatever its alarm would do, so no call of one is ever expanded. -/
theorem cycles_cut {options : Options} {requests : List BuildStep} {q : Query} {budget : Nat}
    (made : Query.build options requests = .ok q) (compiled : (q.compile budget).1 = .ok (.ok ())) :
    (∀ id path, List.IsChain (q.compile budget).2.registry.Links (id :: path ++ [id]) →
      ∃ x ∈ id :: path, (q.compile budget).2.registry.Recursive x) ∧
    (∀ id, (q.compile budget).2.registry.Recursive id → TransGen q.registry.Uses id id) ∧
    ∀ kept alarm, (∀ id, kept id = true → (q.compile budget).2.registry.Recursive id) →
      q.compileWith (Expr.simplifyGuarded kept alarm budget) = q.compile budget := by
  obtain ⟨-, drafted⟩ := Query.drafted_of_build made
  obtain ⟨t, cut, same, guarded⟩ := drafted.reached compiled
  rw [same]
  refine ⟨fun id path chain => ?_, fun id recursive => ?_, fun kept alarm marked => ?_⟩
  · have links := chain.imp fun _ _ => Registry.Links.of_propagateFlags
    obtain ⟨x, mem, recursive⟩ := cut.recursive_of_cycle path links
    exact ⟨x, mem, Registry.recursive_propagateFlags.2 recursive⟩
  · obtain ⟨e, found, mark⟩ := Registry.recursive_propagateFlags.1 recursive
    exact (cut id e found).recursive mark
  · refine guarded kept alarm fun id e guard found => ?_
    obtain ⟨e', found', mark⟩ := Registry.recursive_propagateFlags.1 (marked id guard)
    cases found.symm.trans found'
    simp [Entry.inlinable, mark]

theorem Registry.recursive_of_any {r : Registry} {id : FuncId}
    (marked : (r.find? id).any (·.recursive) = true) : r.Recursive id := by
  obtain ⟨e, found, mark⟩ := (Option.any_eq_true ..).1 marked
  exact ⟨e, found, mark⟩

theorem Registry.links_of_any {r : Registry} {id callee : FuncId}
    (used : (r.find? id).any (fun e => e.stage = .compiled && e.body.any (·.uses callee)) = true) :
    r.Links id callee := by
  obtain ⟨e, found, used⟩ := (Option.any_eq_true ..).1 used
  obtain ⟨compiled, used⟩ := Bool.and_eq_true_iff.1 used
  obtain ⟨body, present, uses⟩ := (Option.any_eq_true ..).1 used
  exact ⟨⟨e, found, by simpa using compiled⟩, e, body, found, present, Expr.names_of_uses uses⟩

/-- Two functions that call each other. The one that is reached second is expanded in the first, which is
left with calls of itself. -/
def flipping : Sample {} where
  requests :=
    [.declare { name := some "even", params := [("n", none)] }
        (.branch (.compare .eq (.var "n") (.datum (.int 0))) (.datum (.bool true))
          (.call "odd" [.arith .sub (.var "n") (.datum (.int 1))])),
      .declare { name := some "odd", params := [("n", none)] }
        (.branch (.compare .eq (.var "n") (.datum (.int 0))) (.datum (.bool false))
          (.call "even" [.arith .sub (.var "n") (.datum (.int 1))])),
      .main (.call "even" [.datum (.int 4)])]
  made := by cbv
  compiled := by cbv

/-- Calls of the one are not expanded. -/
theorem cycles_cut_flipping :
    (∃ x ∈ [(⟨1⟩ : FuncId)], (flipping.query.compile 9).2.registry.Recursive x) ∧
      TransGen flipping.query.registry.Uses ⟨1⟩ ⟨1⟩ ∧
      ∀ alarm, flipping.query.compileWith (Expr.simplifyGuarded (· == ⟨1⟩) alarm 9) =
        flipping.query.compile 9 := by
  obtain ⟨cycles, declared, guarded⟩ := cycles_cut flipping.made flipping.compiled
  have link : (flipping.query.compile 9).2.registry.Links ⟨1⟩ ⟨1⟩ := Registry.links_of_any (by cbv)
  have recursive : (flipping.query.compile 9).2.registry.Recursive ⟨1⟩ :=
    Registry.recursive_of_any (by cbv)
  refine ⟨cycles ⟨1⟩ [] (by simpa using link), declared ⟨1⟩ recursive, fun alarm => ?_⟩
  refine guarded _ alarm fun id guard => ?_
  obtain rfl := beq_iff_eq.1 guard
  exact recursive

/-- Calls of the other are. -/
example : (flipping.query.compileWith (Expr.simplifyGuarded (· == ⟨0⟩)
    (fun _ => Compile.fault .budget) 9)).1 = .error .budget := by cbv

end QueryFunctions
