import QueryFunctions.Proofs.Form.Code

/-! Registered functions under the contract of a compilation. A function is in the making from when its
body is taken out of the registry until its outcome is recorded there, also when that is an error. -/
namespace QueryFunctions

open Contract

variable {w : World} {busy : FuncId → Prop} {reserve : Reserve} {o : Options} {s : CompileState}
  {id : FuncId}

theorem CompileState.Formed.update (hs : s.Formed w busy reserve) (busy' : FuncId → Prop) {e : Entry}
    (found : s.registry.find? id = some e) {f : Entry → Entry}
    (recorded : (f e).recorded = e.recorded)
    (stage : (f e).stage = e.stage ∨ e.stage.Step (f e).stage) (formed : (f e).Formed w s.supply)
    (own : (f e).stage = .compiling ↔ busy' id) (others : ∀ x, x ≠ id → (busy' x ↔ busy x)) :
    CompileState.Formed w busy' reserve { s with registry := s.registry.update id f } ∧
      CompileState.Grows s { s with registry := s.registry.update id f } := by
  refine ⟨⟨Registry.forall_update found formed fun x e' _ => hs.functions x e', fun {x n} calls => ?_,
    hs.scope, hs.spared, hs.outer, Registry.forall_update found own fun x e' apart here => ?_⟩,
    .refl _, Nat.le_refl _, .single (Registry.moves_update found recorded stage), fun _ => .inl⟩
  · obtain ⟨e', here, arity, calls⟩ := hs.called calls
    simp only [Registry.find?_update]
    split
    · rename_i same
      subst same
      cases found.symm.trans here
      refine ⟨f e, by rw [found]; rfl, ?_, ?_⟩
      · exact (Entry.arity_eq recorded).trans arity
      · exact Entry.calls_eq recorded ▸ calls
    · exact ⟨e', here, arity, calls⟩
  · exact (hs.busy x e' here).trans (others x apart).symm

/-- The state once the body of a function is taken out of the registry to be compiled. -/
def CompileState.begun (s : CompileState) (id : FuncId) : CompileState :=
  { s with
    registry := s.registry.update id fun e =>
      { e with stage := .compiling, body := none, scope := {} } }

theorem CompileState.find?_begun {e : Entry} (found : s.registry.find? id = some e) :
    (s.begun id).registry.find? id =
      some { e with stage := .compiling, body := none, scope := {} } :=
  Registry.find?_update_self found _

def Entry.finished (o : Options) (id : FuncId) (scope : Scope) (body : Expr) (e : Entry) : Entry :=
  let body := Compile.keepTail o.tailCalls (body.coerce e.declared e.span)
  { e with
    scope, body := some body, stage := .compiled
    flags := { body.flags with upd := e.annotations.updating || body.has .upd }
    recursive := e.recursive || body.uses id }

theorem CompileState.Formed.begin (hs : s.Formed w busy reserve) {e : Entry}
    (found : s.registry.find? id = some e) (pending : e.stage = .pending) (calls : e.calls ≠ []) :
    ¬busy id ∧ (s.begun id).Formed w (fun x => x = id ∨ busy x) reserve ∧
      CompileState.Grows s (s.begun id) := by
  have idle : ¬busy id := fun going => by
    have compiling := (hs.busy id e found).2 going
    rw [pending] at compiling
    cases compiling
  have formed : Entry.Formed w s.supply
      { e with stage := .compiling, body := none, scope := {} } := by
    refine ⟨(hs.functions id e found).arity, ?_, ?_, ?_, fun _ _ => rfl, ?_, fun _ => calls⟩
    · rintro _ ⟨⟩
    · rintro _ ⟨⟩
    · rintro (h | h) <;> cases h
    · rintro err ⟨⟩
  exact ⟨idle, hs.update _ found rfl (.inr (pending ▸ .begin)) formed (iff_of_true rfl (.inl rfl))
    fun y apart => by simp [apart]⟩

namespace Compile

theorem inScope_quiet {α : Type} (inner : Scope) (act : Compile α) (e : QueryError)
    (t : CompileState) : inScope inner act o s ≠ (.ok (.error e), t) := by
  have run : inScope inner act o s = ((act o { s with scope := inner }).1.map fun r =>
      .ok (r, (act o { s with scope := inner }).2.scope),
      { (act o { s with scope := inner }).2 with scope := s.scope }) := rfl
  rw [run]
  generalize act o { s with scope := inner } = outcome
  obtain ⟨f | r, u⟩ := outcome
  · rintro ⟨⟩
  · rintro ⟨⟩

theorem finishFunction_forms (idle : ¬busy id)
    (hs : s.Formed w (fun x => x = id ∨ busy x) reserve) {e : Entry}
    (found : s.registry.find? id = some e) {scope : Scope} {made : Except QueryError Expr}
    (serves : scope.Serves s.supply e.params [])
    (value : ∀ body, made = .ok body → body.Formed w (.ofBody scope e.params [] s.supply))
    (raised : ∀ err, made = .error err → w.error err) :
    (formContract w busy reserve).Keeps o s (finishFunction id scope made) fun _ t =>
      ∃ e, t.registry.find? id = some e ∧ e.stage = .compiled := by
  have going : e.stage = .compiling := (hs.busy id e found).2 (.inl rfl)
  have hentry := hs.functions id e found
  have others : ∀ x, x ≠ id → (busy x ↔ x = id ∨ busy x) := fun x apart => by simp [apart]
  have called : e.calls ≠ [] := hentry.called (by simp [going])
  cases made with
  | error err =>
    have none : e.body = none := hentry.absent (by simp [going]) (by simp [going])
    have hentry' : Entry.Formed w s.supply { e with scope, stage := .failed err } := by
      refine ⟨hentry.arity, ?_, ?_, ?_, fun _ _ => none, ?_, fun _ => called⟩
      · exact fun body present => absurd present (by simp [none])
      · exact fun body present => absurd present (by simp [none])
      · rintro (h | h) <;> cases h
      · rintro err' ⟨⟩
        exact raised err rfl
    obtain ⟨ht, hst⟩ := hs.update busy found
      (f := fun entry => { entry with scope, stage := .failed err }) rfl
      (.inr (going ▸ .fail)) hentry' (by simpa using idle) others
    exact ⟨ht, hst, raised err rfl⟩
  | ok body =>
    let finished := keepTail o.tailCalls (body.coerce e.declared e.span)
    have hbody : finished.Formed w (.ofBody scope e.params [] s.supply) :=
      keepTail_forms ((value body rfl).coerce _ _) _
    have hentry' : (e.finished o id scope body).Formed w s.supply := by
      refine ⟨hentry.arity, ?_, ?_, fun _ => rfl, fun _ other => absurd rfl other, ?_,
        fun _ => called⟩
      · exact fun _ _ => serves
      · rintro _ ⟨⟩
        cases flag : finished.has .ctx with
        | true => exact hbody.mono (Place.le_refocus fun _ _ => flag)
        | false =>
          exact (hbody.unfocused (finished.seesFocus_of_has flag)).mono (Place.le_refocus False.elim)
      · rintro err ⟨⟩
    obtain ⟨ht, hst⟩ := hs.update busy found (f := Entry.finished o id scope body) rfl
      (.inr (going ▸ .finish)) hentry' (by simpa [Entry.finished] using idle) others
    exact Keeps.of_eq (a := ()) rfl ht hst ⟨_, Registry.find?_update_self found _, rfl⟩

section

variable {simplify : Expr → Compile Expr} (simplifies : SimplifierForms w o simplify)

include simplifies

theorem function_forms (depth : Nat) (busy : FuncId → Prop) (reserve : Reserve) (id : FuncId)
    (s : CompileState) (hs : s.Formed w busy reserve) (mentions : s.registry.Mentions id) :
    (formContract w busy reserve).Keeps o s (function simplify depth id) fun _ t =>
      ∃ e, t.registry.find? id = some e ∧ (e.stage = .compiled ∨ busy id) := by
  induction depth generalizing busy reserve s id with
  | zero => exact Keeps.of_fault rfl trivial
  | succ depth ih =>
    have prepares : ∀ busy, PrepareForms w busy o (function simplify depth) :=
      fun busy reserve id s hs mentions => (ih busy reserve id s hs mentions).mono
        fun _ _ _ _ _ => trivial
    obtain ⟨entry, found, calls⟩ := mentions
    have hentry := hs.functions id entry found
    refine Keeps.bind (entryOf_forms hs found) fun x t ht _ same => ?_
    obtain ⟨rfl, rfl⟩ := same
    split
    · rename_i compiled
      exact Keeps.pure ht ⟨x, found, .inl compiled⟩
    · rename_i compiling
      have going := (ht.busy id x found).1 compiling
      obtain ⟨hu, htu⟩ := ht.update busy found
        (f := fun e => { e with recursive := true }) rfl (.inl rfl)
        { hentry with } (iff_of_true compiling going) fun _ _ => .rfl
      exact Keeps.of_eq (a := ()) rfl hu htu ⟨_, Registry.find?_update_self found _, .inr going⟩
    · rename_i err failed
      exact Keeps.throw ht (hentry.failed err failed)
    · rename_i pending
      split
      · rename_i absent
        have present := hentry.present (.inl pending)
        rw [absent] at present
        cases present
      · rename_i body present
        obtain ⟨idle, hu, htu⟩ := ht.begin found pending calls
        have hbody := hentry.body body present
        refine Keeps.enclosing (d := formContract w (fun x => x = id ∨ busy x) reserve)
          (t := t.begun id) rfl htu
          (inScope_forms hu (hentry.scope body present) (fun _ => False.elim)
            fun v scope supply hv => ?_)
          (inScope_quiet _ _) (fun h => h) (fun _ h => h) fun made v hv huv hmade => ?_
        · refine Expr.compileWith_forms simplifies (prepares _) body _ v hv (hbody.mono ?_)
          unfold Place.within
          rw [scope, supply]
          exact Place.le_refocus fun _ => trivial
        · obtain ⟨e, here, recorded, -⟩ := huv.registry.find? (CompileState.find?_begun found)
          have params : e.params = x.params := Entry.params_eq recorded
          refine (finishFunction_forms idle hv here (params ▸ hmade.2.1) ?_ hmade.2.2.2.2).mono
            fun _ _ _ _ ⟨e, found, compiled⟩ => ⟨e, found, .inl compiled⟩
          rw [params]
          exact hmade.2.2.2.1

end

end Compile

end QueryFunctions
