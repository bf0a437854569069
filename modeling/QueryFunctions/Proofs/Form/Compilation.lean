import QueryFunctions.Proofs.Form.Functions
import QueryFunctions.Proofs.Registry.Propagation
import QueryFunctions.Query

/-! Compilation of a whole query under the contract. Once it returns no function is in the making, and if
it returns no error then all functions that are mentioned are compiled. -/
namespace QueryFunctions

open Contract

namespace Registry

variable {r : Registry} {w : World} {supply : Supply} {id : FuncId} {e : Entry}

theorem moves_propagateFlags (r : Registry) : r.Moves r.propagateFlags := by
  have each : ∀ id e e', r.find? id = some e → r.propagateFlags.find? id = some e' →
      e'.recorded = e.recorded ∧ e'.stage = e.stage := by
    intro id e e' found found'
    rw [find?_propagateFlags, found] at found'
    cases found'
    exact ⟨rfl, rfl⟩
  refine ⟨by simp [propagateFlags], fun id e e' found found' => (each id e e' found found').1, ⟨0⟩, ?_⟩
  exact fun id e e' found found' => .inl (each id e e' found found').2

/-- Spread flags take no permission to ask for the focus away, and no more than call sites change. -/
theorem formed_propagateFlags (found : r.find? id = some e) (he : e.Formed w supply)
    {e' : Entry} (found' : r.propagateFlags.find? id = some e') : e'.Formed w supply := by
  have flags : flagAt (r.entries.map (·.flags)) id = e.flags := by
    unfold flagAt
    rw [List.getElem?_map, show r.entries[id.index]? = some e from found]
    rfl
  have grows := (flagsGrow_propagatedFlags r).each id
  rw [flags] at grows
  rw [find?_propagateFlags, found] at found'
  cases found'
  have focus : e.place supply ≤ { e.place supply with
      focus := e.stage = .compiled → (flagAt r.propagatedFlags id).ctx = true } :=
    Place.le_refocus fun flagged compiled => grows.ctx (flagged compiled)
  split
  · refine ⟨he.arity, fun body present => ?_, fun body present => ?_, fun stage => ?_,
      fun pending compiled => ?_, he.failed, he.called⟩
    · obtain ⟨old, here, -⟩ := Option.map_eq_some_iff.1 present
      exact he.scope old here
    · obtain ⟨old, here, rfl⟩ := Option.map_eq_some_iff.1 present
      exact ((he.body old here).mono focus).refreshCalls _
    · rw [Option.isSome_map]
      exact he.present stage
    · dsimp only
      rw [he.absent pending compiled]
      rfl
  · exact ⟨he.arity, he.scope, fun body present => (he.body body present).mono focus, he.present,
      he.absent, he.failed, he.called⟩

end Registry

variable {w : World} {busy : FuncId → Prop} {p : Place} {o : Options} {s : CompileState}

namespace Compile

variable {reserve : Reserve}

theorem propagateFlags_forms (hs : s.Formed w busy reserve) :
    (formContract w busy reserve).Keeps o s (modifyRegistry (·.propagateFlags)) fun _ t =>
      t.registry = s.registry.propagateFlags := by
  have found : ∀ id e', s.registry.propagateFlags.find? id = some e' →
      ∃ e, s.registry.find? id = some e := by
    intro id e' found'
    rw [Registry.find?_propagateFlags] at found'
    obtain ⟨e, found, -⟩ := Option.map_eq_some_iff.1 found'
    exact ⟨e, found⟩
  refine Keeps.of_eq rfl ⟨fun id e' found' => ?_, fun {id n} calls => ?_, hs.scope, hs.spared,
    hs.outer, fun id e' found' => ?_⟩
    ⟨.refl _, Nat.le_refl _, .single (Registry.moves_propagateFlags _), fun _ => .inl⟩ rfl
  · obtain ⟨e, here⟩ := found id e' found'
    exact Registry.formed_propagateFlags here (hs.functions id e here) found'
  · obtain ⟨e, here, arity, calls⟩ := hs.called calls
    refine ⟨_, (Registry.find?_propagateFlags _ id).trans (congrArg _ here), arity, calls⟩
  · obtain ⟨e, here⟩ := found id e' found'
    rw [Registry.find?_propagateFlags, here] at found'
    cases found'
    exact hs.busy id e here

/-- The function is compiled for good. -/
def Done (s : CompileState) (id : FuncId) : Prop :=
  ∃ e, s.registry.find? id = some e ∧ e.stage = .compiled

theorem Done.grows {t : CompileState} {id : FuncId} (done : Done s id)
    (hst : CompileState.Grows s t) : Done t id := by
  obtain ⟨e, found, compiled⟩ := done
  obtain ⟨e', found', -, path⟩ := hst.registry.find? found
  rw [compiled] at path
  exact ⟨e', found', CompileStage.eq_of_compiled path⟩

theorem registered_forms (budget : Nat) {id : FuncId}
    (hs : s.Formed w (fun _ => False) reserve) (mentions : s.registry.Mentions id) :
    (formContract w (fun _ => False) reserve).Keeps o s (registered budget id) fun _ t =>
      Done t id := by
  refine Keeps.bind (Keeps.get hs) fun _ t ht _ same => ?_
  obtain ⟨rfl, rfl⟩ := same
  refine (function_forms (Expr.simplify_forms w o budget) _ _ _ id t ht mentions).mono
    fun _ u _ _ done => ?_
  obtain ⟨e, found, compiled⟩ := done
  exact ⟨e, found, compiled.resolve_right not_false⟩

theorem expression_forms (budget : Nat) {e : Expr} (hs : s.Formed w (fun _ => False) p.reserve)
    (he : e.Formed w (p.within s)) : Forms w (fun _ => False) p o s (expression budget e) := by
  have simplifies := Expr.simplify_forms w o budget
  refine Keeps.bind (Keeps.get hs) fun _ t ht _ same => ?_
  obtain ⟨rfl, rfl⟩ := same
  refine Expr.compileWith_forms simplifies (fun reserve id u hu mentions => ?_) e p t ht he
  exact (function_forms simplifies _ _ _ id u hu mentions).mono fun _ _ _ _ _ => trivial

theorem mentioned_forms (budget : Nat) (hs : s.Formed w (fun _ => False) reserve)
    (mentions : ∀ id, s.registry.Mentions id → ∃ n, w.calls id n)
    (defined : ∀ id e, s.registry.find? id = some e → e.defined = true) :
    (formContract w (fun _ => False) reserve).Keeps o s (mentioned budget) fun _ t =>
      ∀ id, s.registry.Mentions id → Done t id := by
  let entries := s.registry.entries.zipIdx.filter fun p => !p.1.calls.isEmpty && p.1.defined
  have called : ∀ p ∈ entries, ∃ n, w.calls ⟨p.2⟩ n := by
    intro p mem
    obtain ⟨here, kept⟩ := List.mem_filter.1 mem
    have found : s.registry.find? ⟨p.2⟩ = some p.1 := List.mem_zipIdx_iff_getElem?.1 here
    simp only [Bool.and_eq_true, Bool.not_eq_true', List.isEmpty_eq_false_iff] at kept
    exact mentions _ ⟨p.1, found, kept.1⟩
  have each : (formContract w (fun _ => False) reserve).Keeps o s
      (entries.forM fun p => registered budget ⟨p.2⟩) fun _ t => ∀ p ∈ entries, Done t ⟨p.2⟩ :=
    Keeps.forM_all (fun p _ _ htu done => done.grows htu)
      (fun p t ht ⟨n, calls⟩ => registered_forms budget ht (ht.callable calls)) entries s hs called
  have whole : mentioned budget o s =
      ((entries.forM fun p => registered budget ⟨p.2⟩) >>= fun _ =>
        modifyRegistry (·.propagateFlags)) o s := rfl
  refine Keeps.after whole (CompileState.Grows.refl s) (Keeps.bind each fun _ t ht _ done => ?_)
  refine (propagateFlags_forms ht).mono fun _ u _ htu _ id ⟨e, found, calls⟩ => ?_
  have among : (e, id.index) ∈ entries := by
    refine List.mem_filter.2 ⟨List.mem_zipIdx_iff_getElem?.2 found, ?_⟩
    simp [calls, defined id e found]
  exact (done _ among).grows htu

end Compile

namespace Query

/-- A query as it was built, all of whose code is well formed. `focus` says whether its main expression
may ask for the focus. -/
structure Fit (w : World) (focus : Prop) (q : Query) : Prop where
  stage : q.stage = .built
  pending : ∀ id e, q.registry.find? id = some e → e.stage = .pending
  functions : ∀ id e, q.registry.find? id = some e → e.defined = true → e.Formed w q.supply
  calls : ∀ id n, w.calls id n ↔ ∃ e, q.registry.find? id = some e ∧ e.arity = n ∧ e.calls ≠ []
  scope : q.scope.Sound q.supply
  main : q.main.Formed w { Place.ofBody q.scope [] [] q.supply with focus }

structure Compiled (w : World) (focus : Prop) (q : Query) : Prop where
  functions : ∀ id e, q.registry.find? id = some e → e.Formed w q.supply
  called : ∀ id n, w.calls id n →
    ∃ e, q.registry.find? id = some e ∧ e.arity = n ∧ e.stage = .compiled
  stages : ∀ id e, q.registry.find? id = some e →
    e.calls = [] ∧ e.stage = .pending ∨ e.calls ≠ [] ∧ e.stage = .compiled
  scope : q.scope.Sound q.supply
  main : q.main.Formed w { Place.ofBody q.scope [] [] q.supply with focus }

theorem compileMain_forms (budget : Nat) {main : Expr} (hs : s.Formed w (fun _ => False) p.reserve)
    (mentions : ∀ id, s.registry.Mentions id → ∃ n, w.calls id n)
    (defined : ∀ id e, s.registry.find? id = some e → e.defined = true)
    (hmain : main.Formed w (p.within s)) :
    (formContract w (fun _ => False) p.reserve).Keeps o s (compileMain budget main) fun e t =>
      e.Formed w (p.within t) ∧ ∀ id, s.registry.Mentions id → Compile.Done t id := by
  refine Keeps.bind (Compile.expression_forms budget hs hmain) fun made t ht hst hmade => ?_
  refine Keeps.bind (Compile.mentioned_forms budget ht (fun id named => ?_) fun id e found => ?_)
    fun _ u hu htu done => ?_
  · obtain ⟨e, found, calls⟩ := named
    obtain ⟨old, here, recorded, -⟩ := hst.registry.origin found
    exact mentions id ⟨old, here, Entry.calls_eq recorded ▸ calls⟩
  · obtain ⟨old, here, recorded, -⟩ := hst.registry.origin found
    exact (Entry.defined_eq recorded).trans (defined id old here)
  · refine Keeps.bind (Keeps.get hu) fun _ v hv _ same => ?_
    obtain ⟨rfl, rfl⟩ := same
    refine Keeps.pure hv ⟨(htu.formed hmade).refreshCalls _, fun id named => ?_⟩
    exact done id (hst.registry.mentions named)

theorem Fit.start {focus : Prop} {q : Query} (fit : q.Fit w focus) (checked : q.check = .ok ()) :
    (∀ id e, q.registry.find? id = some e → e.defined = true) ∧
      CompileState.Formed w (fun _ => False) (Place.ofBody q.scope [] [] q.supply).reserve
        ⟨q.supply, q.registry, q.scope⟩ := by
  have resolved : q.registry.check = .ok () := by
    unfold check at checked
    cases valid : q.options.validate with
    | error e => simp [valid, bind, Except.bind] at checked
    | ok =>
      cases resolved : q.registry.check with
      | error e => simp [valid, resolved, bind, Except.bind] at checked
      | ok => rfl
  have defined : ∀ id e, q.registry.find? id = some e → e.defined = true := fun id e found =>
    (q.registry.check_eq_ok_iff.1 resolved) e (List.mem_of_getElem? found)
  refine ⟨defined, fun id e found => fit.functions id e found (defined id e found),
    fun {id n} calls => (fit.calls id n).1 calls, fit.scope, ?_, fun _ => False.elim, fun id e found => ?_⟩
  · rintro slot ⟨x, mem, -⟩
    cases mem
  · rw [fit.pending id e found]
    exact iff_of_false (by rintro ⟨⟩) not_false

/-- What becomes of a query that is compiled: its registry goes its way; when compilation returns, no
function is in the making; and without an error all that may be run is compiled and well formed. -/
theorem Fit.compile {focus : Prop} {q : Query} (fit : q.Fit w focus) (budget : Nat) :
    q.registry.Proceeds (q.compile budget).2.registry ∧
      match (q.compile budget).1 with
      | .error f => w.faults f
      | .ok (.error _) =>
        ∀ id e, (q.compile budget).2.registry.find? id = some e → e.stage ≠ .compiling
      | .ok (.ok ()) => (q.compile budget).2.Compiled w focus := by
  unfold Query.compile
  rw [fit.stage]
  dsimp only
  cases checked : q.check with
  | error e =>
    refine ⟨.refl, fun id e found => ?_⟩
    rw [fit.pending id e found]
    rintro ⟨⟩
  | ok =>
    obtain ⟨defined, hs⟩ := fit.start checked
    have mentions : ∀ id, q.registry.Mentions id → ∃ n, w.calls id n :=
      fun id ⟨e, found, calls⟩ => ⟨e.arity, (fit.calls id _).2 ⟨e, found, rfl, calls⟩⟩
    let p : Place := { Place.ofBody q.scope [] [] q.supply with focus }
    have made := compileMain_forms (p := p) (o := q.options) budget hs mentions defined fit.main
    unfold Keeps at made
    change q.registry.Proceeds _ ∧ _
    have same : (compileMain budget q.main).outcome q.options ⟨q.supply, q.registry, q.scope⟩ =
      compileMain budget q.main q.options ⟨q.supply, q.registry, q.scope⟩ := rfl
    rw [same]
    generalize compileMain budget q.main q.options ⟨q.supply, q.registry, q.scope⟩ = outcome at made
    obtain ⟨f | e | main, t⟩ := outcome
    · exact ⟨made.1.registry, made.2⟩
    · refine ⟨made.2.1.registry, fun id e found compiling => (made.1.busy id e found).1 compiling⟩
    · obtain ⟨ht, hst, hmain, done⟩ := made
      refine ⟨hst.registry, ht.functions, fun id n calls => ?_, fun id e found => ?_, ht.scope, ?_⟩
      · obtain ⟨e, found, arity, -⟩ := ht.called calls
        obtain ⟨e', found', compiled⟩ := done id (hs.callable calls)
        cases found.symm.trans found'
        exact ⟨e, found, arity, compiled⟩
      · obtain ⟨old, here, recorded, -⟩ := hst.registry.origin found
        by_cases calls : e.calls = []
        · refine .inl ⟨calls, Classical.byContradiction fun other => ?_⟩
          exact (ht.functions id e found).called other calls
        · refine .inr ⟨calls, ?_⟩
          obtain ⟨e', found', compiled⟩ := done id ⟨old, here, Entry.calls_eq recorded ▸ calls⟩
          cases found.symm.trans found'
          exact compiled
      · refine hmain.mono ⟨.refl _, Nat.le_refl _, id, id, ?_, .inl⟩
        rintro slot ⟨x, mem, -⟩
        cases mem

end Query

end QueryFunctions
