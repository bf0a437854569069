import QueryFunctions.Proofs.Compile.Functions
import QueryFunctions.Proofs.Run.Calls
import QueryFunctions.Proofs.Standard.Drawing
import QueryFunctions.Query

/-! Compilation of a whole query: raw code that meets a standard becomes code that is ready to run. The
flags of the functions tell which of them draw: every compiled body meets the standard that takes them at
their word. -/
namespace QueryFunctions

namespace Registry

/-- The flags of the function say that it draws random numbers. -/
def Draws (r : Registry) (id : FuncId) : Prop :=
  ∃ flags, r.flagsOf id = some flags ∧ flags.ndt = true

/-- The bodies of all functions that are mentioned are compiled, and all flags are up to date. -/
def Settled (r : Registry) (d : Standard) : Prop :=
  ∀ id e body, d.mentioned id → r.find? id = some e → e.body = some body →
    body.Meets (d.drawing r.Draws) true ((Allowance.ofFunction d id e.scope).drawing (r.Draws id))

theorem flagsOf_propagateFlags (r : Registry) (id : FuncId) :
    r.propagateFlags.flagsOf id = (r.find? id).map fun _ => flagAt r.propagatedFlags id := by
  unfold flagsOf
  rw [find?_propagateFlags, Option.map_map]
  rfl

theorem known_propagateFlags {r : Registry} {id : FuncId} (draws : r.propagateFlags.Draws id) :
    ∃ flags, r.propagatedFlags[id.index]? = some flags ∧ flags.ndt = true := by
  obtain ⟨flags, found, on⟩ := draws
  rw [flagsOf_propagateFlags] at found
  obtain ⟨e, -, rfl⟩ := Option.map_eq_some_iff.1 found
  unfold flagAt at on
  cases h : r.propagatedFlags[id.index]? with
  | none => simp [h] at on
  | some flags => exact ⟨flags, rfl, by simpa [h] using on⟩

/-- The flags of a compiled function cover those of its body with the calls brought up to date. -/
theorem draws_of_body {r : Registry} {id : FuncId} {e : Entry} {body : Expr}
    (found : r.find? id = some e) (compiled : e.stage = .compiled) (present : e.body = some body)
    (recorded : body.has .ndt = true → e.flags.ndt = true)
    (on : (body.refreshCalls fun id => r.propagatedFlags[id.index]?).has .ndt = true) :
    r.propagateFlags.Draws id := by
  refine ⟨flagAt r.propagatedFlags id, by simp [flagsOf_propagateFlags, found], ?_⟩
  have size : (r.entries.map (·.flags)).length = r.propagatedFlags.length :=
    (flagsGrow_propagatedFlags r).length.symm
  rcases body.ndt_refreshCalls on with own | ⟨site, args, flags, mem, known, ndt⟩
  · refine ((flagsGrow_propagatedFlags r).each id).ndt ?_
    have entry : (r.entries.map (·.flags))[id.index]? = some e.flags := by
      rw [List.getElem?_map]
      exact congrArg (Option.map (·.flags)) found
    simpa [flagAt, entry] using recorded own
  · have bound : id.index < r.propagatedFlags.length := by
      rw [← size, List.length_map]
      exact (List.getElem?_eq_some_iff.1 found).1
    refine contains_of_spread_eq (by decide : Flag.ndt ≠ .upd) r.spread_propagatedFlags
      (mem_callEdges found compiled present) (Expr.mem_callees mem) bound ?_
    simpa [flagAt, known, Flags.contains] using ndt

theorem settled_propagateFlags {r : Registry} {d : Standard}
    (meets : ∀ id e, r.find? id = some e → e.Meets d id)
    (settled : ∀ id e, d.mentioned id → r.find? id = some e → e.stage ≠ .pending) :
    r.propagateFlags.Settled d := by
  intro id e body mentioned found present
  rw [find?_propagateFlags] at found
  obtain ⟨old, here, rfl⟩ := Option.map_eq_some_iff.1 found
  dsimp only at present
  have done := settled id old mentioned here
  cases kept : old.body with
  | none => simp [kept] at present
  | some raw =>
    obtain ⟨compiled, recorded⟩ := (meets id old here).flags done raw kept
    have edge := mem_callEdges here compiled kept
    have among : (r.callEdges.map Prod.fst).contains id = true :=
      List.contains_iff_mem.2 (List.mem_map.2 ⟨_, edge, rfl⟩)
    rw [if_pos among, kept, Option.map_some] at present
    cases present
    refine Expr.refreshCalls_drawing (fun _ => known_propagateFlags)
      ((meets id old here).compiled done raw kept) fun on => ?_
    exact draws_of_body here compiled kept recorded on

theorem Settled.runs {r : Registry} {d : Standard} (settled : r.Settled d) :
    r.Runs (d.drawing r.Draws) := by
  intro id e body mentioned found present
  refine (settled id e body mentioned found present).mono ?_
  exact ⟨fun h => h, fun h => h, fun h => h, fun h => h, False.elim⟩

end Registry

/-- A query as it was built, fit to be compiled. -/
structure Query.Raw (d : Standard) (q : Query) : Prop where
  functions : ∀ id e, q.registry.find? id = some e → e.Meets d id
  main : q.main.Meets d false (.ofBody d true q.scope)
  mentioned : ∀ id, d.mentioned id →
    ∃ e, q.registry.find? id = some e ∧ e.calls ≠ [] ∧ e.defined = true

/-- A compiled query, fit to be run. -/
structure Query.Ready (d : Standard) (q : Query) : Prop where
  functions : q.registry.Settled d
  main : q.main.Meets (d.drawing q.registry.Draws) true
    ((Allowance.ofBody d true q.scope).drawing (q.main.has .ndt = true))

variable {d : Standard} {a : Allowance} {o : Options} {s : CompileState}
  (unmixed : d.annotated → o.mixedUpdates = false) (drawn : ∀ id, d.draws id)

include unmixed drawn

namespace Compile

theorem registered_keeps (budget : Nat) (id : FuncId) (hs : s.Meets d a) :
    (compileLaw d a).Keeps o s (registered budget id) fun _ t => t.Settled id := by
  refine Law.Keeps.bind (Law.Keeps.get hs) fun u t ht _ same => ?_
  exact function_keeps (Expr.simplify_keeps unmixed budget) drawn _ id ht

theorem expression_makes (isOpen : a.Open d) (budget : Nat) {e : Expr} (hs : s.Meets d a)
    (he : e.Meets d false (a.inside d s.scope)) : Makes d a o s (expression budget e) := by
  have simplifies : SimplifierKeeps d o (Expr.simplify budget) := Expr.simplify_keeps unmixed budget
  refine Law.Keeps.bind (Law.Keeps.get hs) fun u t ht hst _ => ?_
  refine Expr.compileWith_makes simplifies (fun b _ id v hv => ?_) isOpen e t ht (hst.meets he)
  exact (function_keeps simplifies drawn _ id hv).mono fun _ _ _ _ _ => trivial

theorem mentioned_ends (budget : Nat) (hs : s.Meets d a)
    (covered : ∀ id, d.mentioned id →
      ∃ e, s.registry.find? id = some e ∧ e.calls ≠ [] ∧ e.defined = true)
    {t : CompileState} (run : mentioned budget o s = (.ok (.ok ()), t)) :
    (∀ id, (s.scope.find? id).isSome = true → (t.scope.find? id).isSome = true) ∧
      t.registry.Settled d := by
  let entries := s.registry.entries.zipIdx.filter fun p => !p.1.calls.isEmpty && p.1.defined
  have each : (compileLaw d a).Keeps o s
      (entries.forM fun p => registered budget ⟨p.2⟩)
      fun _ t => ∀ p ∈ entries, t.Settled ⟨p.2⟩ :=
    Law.Keeps.forM_all (fun p _ _ huv settled => settled.leads huv)
      (fun p u hu (_ : True) => registered_keeps unmixed drawn budget ⟨p.2⟩ hu) entries s hs
      fun _ _ => trivial
  have whole : mentioned budget o s =
      ((entries.forM fun p => registered budget ⟨p.2⟩) >>= fun _ =>
        modifyRegistry (·.propagateFlags)) o s := rfl
  rw [whole, Computation.run_bind] at run
  cases h : (entries.forM fun p => registered budget ⟨p.2⟩) o s with
  | mk ended u =>
    rw [h] at run
    rcases ended with f | e | _
    · cases run
    · cases run
    · cases run
      obtain ⟨hu, hsu, settled⟩ := each _ _ h
      refine ⟨hsu.scope, ?_⟩
      refine Registry.settled_propagateFlags hu.functions fun id e mentioned found => ?_
      obtain ⟨old, here, called, defined⟩ := covered id mentioned
      have among : (old, id.index) ∈ entries := by
        refine List.mem_filter.2 ⟨List.mem_zipIdx_iff_getElem?.2 here, ?_⟩
        simp [called, defined]
      exact settled () rfl _ among e found

end Compile

namespace Query

theorem compileMain_ends (isOpen : a.Open d) (budget : Nat) {main : Expr} (hs : s.Meets d a)
    (hmain : main.Meets d false (a.inside d s.scope))
    (covered : ∀ id, d.mentioned id →
      ∃ e, s.registry.find? id = some e ∧ e.calls ≠ [] ∧ e.defined = true)
    {made : Expr} {u : CompileState} (run : compileMain budget main o s = (.ok (.ok made), u)) :
    u.registry.Settled d ∧ made.Meets (d.drawing u.registry.Draws) true
      ((a.inside d u.scope).drawing (made.has .ndt = true)) := by
  have whole : compileMain budget main o s =
      (Compile.expression budget main >>= fun main => Compile.mentioned budget >>= fun _ =>
        (fun _ u => (.ok (.ok (main.refreshCalls u.registry.flagsOf)), u) : Compile Expr)) o s := rfl
  rw [whole, Computation.run_bind] at run
  cases first : Compile.expression budget main o s with
  | mk ended t =>
    rw [first] at run
    rcases ended with f | e | compiled
    · cases run
    · cases run
    · obtain ⟨ht, hst, value⟩ :=
        Compile.expression_makes unmixed drawn isOpen budget hs hmain _ _ first
      dsimp only at run
      rw [Computation.run_bind] at run
      cases second : Compile.mentioned budget o t with
      | mk ended v =>
        rw [second] at run
        rcases ended with f | e | _
        · cases run
        · cases run
        · cases run
          have still : ∀ id, d.mentioned id →
              ∃ e, t.registry.find? id = some e ∧ e.calls ≠ [] ∧ e.defined = true := by
            intro id mentioned
            obtain ⟨e, here, called, defined⟩ := covered id mentioned
            obtain ⟨e', here', leads⟩ := hst.functions id e here
            exact ⟨e', here', leads.calls ▸ called, leads.defined.trans defined⟩
          obtain ⟨grows, settled⟩ := Compile.mentioned_ends unmixed drawn budget ht still second
          have hmade := (value compiled rfl).mono (a.inside_le d grows)
          exact ⟨settled, Expr.refreshCalls_drawing (fun _ draws => draws) hmade fun on => on⟩

theorem compile_ready {q : Query} (raw : q.Raw d) (built : q.stage = .built)
    (same : q.options = o) (budget : Nat) (compiled : (q.compile budget).1 = .ok (.ok ())) :
    (q.compile budget).2.Ready d := by
  subst same
  let start : CompileState := ⟨q.supply, q.registry, q.scope⟩
  have hstart : start.Meets d (.ofBody d true q.scope) :=
    ⟨raw.functions, fun _ _ => trivial, .inr fun _ => trivial⟩
  unfold compile at compiled ⊢
  rw [built] at compiled ⊢
  dsimp only at compiled ⊢
  cases checked : q.check with
  | error e => simp [checked] at compiled
  | ok _ =>
    simp only [checked] at compiled ⊢
    cases h : (compileMain budget q.main).outcome q.options start with
    | mk ended t =>
      rcases ended with f | e | main
      · simp [start, h] at compiled
      · simp [start, h] at compiled
      · obtain ⟨settled, hmain⟩ := compileMain_ends unmixed drawn
          (Allowance.open_ofBody d true q.scope) budget hstart raw.main raw.mentioned h
        exact ⟨settled, hmain⟩

end Query

end QueryFunctions
