import QueryFunctions.Proofs.Compile.Code
import QueryFunctions.Proofs.Registry.Stages

/-! Registered functions under the law of a compilation. A function is taken out of the pending ones
before its callees are compiled, and nobody else finishes it: what the law calls `compiling` is
left alone by everything but the computation that began it. -/
namespace QueryFunctions

variable {d : Standard} {a : Allowance} {o : Options} {s : CompileState} {id : FuncId}

/-- The function is compiled or being compiled, or failed to compile. -/
def CompileState.Settled (s : CompileState) (id : FuncId) : Prop :=
  ∀ e, s.registry.find? id = some e → e.stage ≠ .pending

namespace CompileState

theorem update_meets (hs : s.Meets d a) {f : Entry → Entry}
    (hf : ∀ e, s.registry.find? id = some e → (f e).Meets d id) :
    CompileState.Meets d a { s with registry := s.registry.update id f } := by
  refine ⟨fun id' e found => ?_, hs.free, hs.fresh⟩
  rw [Registry.find?_update] at found
  split at found
  · rename_i same
    subst same
    obtain ⟨e', found', rfl⟩ := Option.map_eq_some_iff.1 found
    exact hf e' found'
  · exact hs.functions id' e found

theorem Leads.update {t : CompileState} (hst : Leads s t) {f : Entry → Entry}
    (hf : ∀ e e', s.registry.find? id = some e → t.registry.find? id = some e' → e.Leads (f e')) :
    Leads s { t with registry := t.registry.update id f } where
  scope := hst.scope
  supply := hst.supply
  functions id' e found := by
    obtain ⟨e', found', leads⟩ := hst.functions id' e found
    by_cases same : id' = id
    · subst same
      refine ⟨f e', ?_, hf e e' found found'⟩
      simp [Registry.find?_update, found']
    · exact ⟨e', by simp [Registry.find?_update, same, found'], leads⟩
  size := by simpa [Registry.update] using hst.size

theorem Leads.origin {t : CompileState} (hst : Leads s t) {e : Entry}
    (found : t.registry.find? id = some e) :
    ∃ old, s.registry.find? id = some old ∧ old.Leads e := by
  have bound := (List.getElem?_eq_some_iff.1 found).1
  rw [hst.size] at bound
  have here := List.getElem?_eq_getElem bound
  obtain ⟨e', found', leads⟩ := hst.functions id _ here
  cases found'.symm.trans found
  exact ⟨_, here, leads⟩

theorem Settled.leads {t : CompileState} (settled : s.Settled id) (hst : Leads s t) :
    t.Settled id := by
  intro e found
  obtain ⟨old, here, leads⟩ := hst.origin found
  exact leads.settled (settled old here)

theorem settled_of_entry {e : Entry} (found : s.registry.find? id = some e)
    (settled : e.stage ≠ .pending) : s.Settled id := by
  intro e' found'
  cases found.symm.trans found'
  exact settled

end CompileState

namespace Compile

theorem modifyRegistry_keeps (hs : s.Meets d a) {f : Entry → Entry}
    (meets : ∀ e, s.registry.find? id = some e → (f e).Meets d id)
    (leads : ∀ e, s.registry.find? id = some e → e.Leads (f e)) :
    (compileLaw d a).Keeps o s (modifyRegistry (·.update id f)) fun _ _ => True := by
  refine Law.Keeps.of_eq rfl (CompileState.update_meets hs meets) ?_ trivial
  refine CompileState.Leads.update (.refl s) fun e e' found found' => ?_
  cases found.symm.trans found'
  exact leads e found

variable {simplify : Expr → Compile Expr} (simplifies : SimplifierKeeps d o simplify)
  (drawn : ∀ id, d.draws id)

include drawn

theorem ofBody_le_ofFunction (id : FuncId) (scope : Scope) :
    Allowance.ofBody d (d.isUpdating id) scope ≤ .ofFunction d id scope :=
  ⟨fun h => h, fun _ => drawn id, fun h => h, fun h => h, fun h => h⟩

theorem finishFunction_ends {t : CompileState} (ht : t.Meets d a) (hst : CompileState.Leads s t)
    (began : ∀ e, s.registry.find? id = some e → e.stage = .pending)
    (going : ∀ e, t.registry.find? id = some e → e.stage = .compiling) {scope : Scope}
    {made : Except QueryError Expr}
    (hmade : ∀ e, made = .ok e → e.Meets d true (.ofBody d (d.isUpdating id) scope))
    {result : Except QueryError Unit} {u : CompileState}
    (run : finishFunction id scope made o t = (.ok result, u)) :
    u.Meets d a ∧ CompileState.Leads s u ∧ ∀ x, result = .ok x → u.Settled id := by
  have idle : ∀ e, t.registry.find? id = some e → e.body = none := by
    intro e found
    cases body : e.body with
    | none => rfl
    | some b =>
      have settled : e.stage ≠ .pending := by simp [going e found]
      have compiled := ((ht.functions id e found).flags settled b body).1
      rw [going e found] at compiled
      cases compiled
  -- The entry was pending at the start, so all that it has to keep is the declaration.
  have leads : ∀ (f : Entry → Entry), (∀ e, (f e).calls = e.calls ∧ (f e).defined = e.defined) →
      CompileState.Leads s { t with registry := t.registry.update id f } := by
    intro f same
    refine hst.update fun e e' found found' => ?_
    obtain ⟨e'', found'', kept⟩ := hst.functions id e found
    cases found''.symm.trans found'
    refine ⟨(same e').1.trans kept.calls, (same e').2.trans kept.defined, fun h => ?_, fun h => ?_⟩
    · exact absurd (began e found) h
    · rw [began e found] at h
      cases h
  cases made with
  | error err =>
    cases run
    refine ⟨CompileState.update_meets ht fun e found => ?_, leads _ fun _ => ⟨rfl, rfl⟩,
      by rintro _ ⟨⟩⟩
    have none := idle e found
    refine ⟨(ht.functions id e found).updating, ?_, ?_, ?_⟩ <;>
      · intro _ b body
        rw [none] at body
        cases body
  | ok body =>
    cases run
    have hbody : ∀ e : Entry, (keepTail o.tailCalls (body.coerce e.declared e.span)).Meets d true
        (.ofFunction d id scope) := by
      intro e
      refine (keepTail_meets (Expr.coerce_meets (hmade body rfl) _ _) _).mono ?_
      exact ofBody_le_ofFunction drawn id scope
    refine ⟨CompileState.update_meets ht fun e found => ?_, leads _ fun _ => ⟨rfl, rfl⟩, ?_⟩
    · refine ⟨(ht.functions id e found).updating, fun pending => ?_, fun _ b compiled => ?_,
        fun _ b compiled => ⟨rfl, fun ndt => ?_⟩⟩
      · cases pending
      · cases compiled
        exact hbody e
      · cases compiled
        exact ndt
    · rintro _ - e found
      simp only [Registry.find?_update, if_true] at found
      obtain ⟨e', -, rfl⟩ := Option.map_eq_some_iff.1 found
      simp

include simplifies

theorem function_keeps (depth : Nat) {a : Allowance} {s : CompileState} (id : FuncId)
    (hs : s.Meets d a) :
    (compileLaw d a).Keeps o s (function simplify depth id) fun _ t => t.Settled id := by
  induction depth generalizing a s id with
  | zero => exact Law.Keeps.of_fault rfl
  | succ depth ih =>
    have prepares : PrepareKeeps d o (function simplify depth) :=
      fun a _ id s hs => (ih id hs).mono fun _ _ _ _ _ => trivial
    refine Law.Keeps.bind (entryOf_keeps hs id) fun entry t ht _ hentry => ?_
    obtain ⟨found, hentry⟩ := hentry
    split
    · rename_i compiled
      refine Law.Keeps.pure ht fun e found' => ?_
      cases found.symm.trans found'
      simp [compiled]
    · rename_i compiling
      have settled : entry.stage ≠ .pending := by simp [compiling]
      have kept := modifyRegistry_keeps (o := o) (f := fun e => { e with recursive := true }) ht
        (fun e found' => ⟨(ht.functions id e found').updating, (ht.functions id e found').raw,
          (ht.functions id e found').compiled, (ht.functions id e found').flags⟩)
        fun e _ => ⟨rfl, rfl, fun h => h, fun h => h⟩
      exact kept.mono fun _ u _ htu _ => (CompileState.settled_of_entry found settled).leads htu
    · exact Law.Keeps.throw ht
    · rename_i pending
      split
      · exact Law.Keeps.throw ht
      · rename_i body present
        let begun (e : Entry) : Entry := { e with stage := .compiling, body := none, scope := {} }
        let v : CompileState := { t with registry := t.registry.update id begun }
        have hv : v.Meets d a := by
          refine CompileState.update_meets ht fun e found' => ?_
          refine ⟨(ht.functions id e found').updating, ?_, ?_, ?_⟩ <;>
            · intro _ b absent
              cases absent
        have began : ∀ e, t.registry.find? id = some e → e.stage = .pending := by
          intro e found'
          cases found.symm.trans found'
          exact pending
        have htv : CompileState.Leads t v := by
          refine CompileState.Leads.update (.refl t) fun e e' he he' => ?_
          cases he.symm.trans he'
          refine ⟨rfl, rfl, fun h => absurd (began e he) h, fun _ => rfl⟩
        have going : v.registry.find? id = some (begun entry) := by
          simp [v, Registry.find?_update, found]
        have hbody := (hentry.raw pending body present).mono (Allowance.ofFunction_le_ofBody id _)
        refine Law.Keeps.enclosing (t := v) rfl htv (inScope_keeps hv fun u hu same =>
          Expr.compileWith_makes simplifies prepares (Allowance.open_ofBody d _ entry.scope) body u hu
            (same ▸ hbody)) fun p u hu hvu hp result w run => ?_
        refine finishFunction_ends drawn hu (htv.trans hvu) began (fun e found' => ?_) hp run
        obtain ⟨e', found'', leads⟩ := hvu.functions id _ going
        cases found''.symm.trans found'
        exact leads.compiling rfl

end Compile

end QueryFunctions
