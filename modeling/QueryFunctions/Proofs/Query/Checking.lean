import QueryFunctions.Proofs.Query.Units

/-! What the check of a query is worth: every closure and every function that updates is annotated so,
unless updates may be mixed with other code. -/
namespace QueryFunctions

theorem forM_ok {ε α : Type} {f : α → Except ε PUnit} {as : List α}
    (passed : as.forM f = .ok ()) {a : α} (mem : a ∈ as) : f a = .ok () := by
  induction as with
  | nil => cases mem
  | cons first as ih =>
    change (f first >>= fun _ => as.forM f) = .ok () at passed
    cases h : f first with
    | error e => simp [h, bind, Except.bind] at passed
    | ok u =>
      simp only [h, bind, Except.bind] at passed
      rcases List.mem_cons.1 mem with rfl | mem
      · exact h
      · exact ih passed mem

variable {r : Registry} {o : Options} (unmixed : o.mixedUpdates = false)

include unmixed

theorem Closure.declared_of_check {c : Closure} (passed : c.checkUpdates r o = .ok ())
    (updates : c.body.updates r.isUpdating = true) : c.annotations.updating = true := by
  cases annotated : c.annotations.updating with
  | true => rfl
  | false => simp [checkUpdates, annotated, updates, unmixed] at passed

theorem Expr.declares_of_check {e : Expr} (passed : e.checkUpdates r o = .ok ()) :
    e.Declares r.isUpdating :=
  fun _ mem => Closure.declared_of_check unmixed (forM_ok passed mem)

theorem Entry.declares_of_check {e : Entry} {body : Expr} (present : e.body = some body)
    (passed : e.checkUpdates r o = .ok ()) : body.Declares r.isUpdating ∧
      (body.updates r.isUpdating = true → e.annotations.updating = true) := by
  unfold checkUpdates at passed
  rw [present] at passed
  dsimp only at passed
  split at passed
  · cases passed
  · rename_i idle
    split at passed
    · cases passed
    · rename_i declared
      refine ⟨Expr.declares_of_check unmixed passed, fun updates => ?_⟩
      simpa [updates, unmixed] using declared

omit unmixed

namespace Query

/-- The standard of a unit, which asks for annotations or not, and for variables of one's own scope
or not. -/
def standard (q : Query) (annotated bound : Prop) : Standard where
  annotated
  bound
  isUpdating := q.registry.isUpdating
  mentioned := q.registry.Mentions
  draws _ := True

theorem check_parts {q : Query} (passed : q.check = .ok ()) :
    q.registry.check = .ok () ∧ q.registry.checkUpdates q.options = .ok () ∧
      q.main.checkUpdates q.registry q.options = .ok () := by
  unfold check at passed
  cases first : q.options.validate with
  | error e => simp [first, bind, Except.bind] at passed
  | ok _ =>
    cases second : q.registry.check with
    | error e => simp [first, second, bind, Except.bind] at passed
    | ok _ =>
      cases third : q.registry.checkUpdates q.options with
      | error e => simp [first, second, third, bind, Except.bind] at passed
      | ok _ =>
        simp only [first, second, third, bind, Except.bind] at passed
        exact ⟨rfl, rfl, passed⟩

theorem Built.raw {q : Query} (built : q.Built) (passed : q.check = .ok ()) {annotated bound : Prop}
    (unmixed : annotated → q.options.mixedUpdates = false) : q.Raw (q.standard annotated bound) := by
  obtain ⟨defined, functions, main⟩ := check_parts passed
  refine ⟨fun id e found => ?_, ?_, fun id ⟨e, found, called⟩ => ⟨e, found, called, ?_⟩⟩
  · have updating : e.annotations.updating = q.registry.isUpdating id := by
      simp [Registry.isUpdating, found]
    have hraw := built.functions id e found
    refine ⟨updating, fun _ body present => ?_, fun done => ?_, fun done => ?_⟩
    · have checked := fun h => Entry.declares_of_check (unmixed h) present
        (forM_ok functions (List.mem_of_getElem? found))
      have hbody := (hraw.body body present).meets (d := q.standard annotated bound)
        (fun _ h => h) fun h => (checked h).1
      refine hbody.mono ⟨fun upd h => ?_, fun h => h, fun h => h, fun h => h, fun h => h⟩
      exact updating.symm.trans ((checked h).2 (upd h))
    · exact absurd hraw.pending done
    · exact absurd hraw.pending done
  · have hmain := built.main.meets (d := q.standard annotated bound) (fun _ h => h)
      fun h => Expr.declares_of_check (unmixed h) main
    exact hmain.mono ⟨fun _ _ => rfl, fun h => h, fun h => h, fun h => h, fun h => h⟩
  · exact (Registry.check_eq_ok_iff _).1 defined e (List.mem_of_getElem? found)

theorem check_of_compiled {q : Query} (stage : q.stage = .built) {budget : Nat}
    (compiled : (q.compile budget).1 = .ok (.ok ())) : q.check = .ok () := by
  unfold compile at compiled
  rw [stage] at compiled
  dsimp only at compiled
  cases checked : q.check with
  | error e => simp [checked] at compiled
  | ok _ => rfl

theorem options_compile (q : Query) (budget : Nat) : (q.compile budget).2.options = q.options := by
  unfold compile
  split
  · rfl
  · rfl
  · split
    · rfl
    · dsimp only
      split <;> rfl

theorem Built.ready {q : Query} (built : q.Built) {budget : Nat}
    (compiled : (q.compile budget).1 = .ok (.ok ())) {annotated bound : Prop}
    (unmixed : annotated → q.options.mixedUpdates = false) :
    (q.compile budget).2.Ready (q.standard annotated bound) :=
  compile_ready unmixed (fun _ => trivial)
    (built.raw (check_of_compiled built.stage compiled) unmixed) built.stage rfl budget compiled

end Query

end QueryFunctions
