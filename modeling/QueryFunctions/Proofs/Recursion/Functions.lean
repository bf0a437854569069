import QueryFunctions.Proofs.Compile.Pact
import QueryFunctions.Proofs.Recursion.State
import QueryFunctions.Proofs.Termination.Chain

/-! Code as it was built compiles to code that names functions only once these are prepared, and what it
names is what the declared code leads to. Functions are prepared, by induction on how deep their
compilations may be nested. A function that is reached again while it is in the making is used by all the
functions that are taken up inside of it, so it leads back to itself. From single functions it follows for
all that are mentioned. -/
namespace QueryFunctions

open Relation

variable {D : FuncId → FuncId → Prop} {kept : FuncId → Bool} {o : Options} {busy R : FuncId → Prop}
  {s : CompileState} {id : FuncId} {alarm : Compile Expr → Compile Expr} {budget : Nat}

def PrepareCuts (D : FuncId → FuncId → Prop) (kept : FuncId → Bool) (o : Options)
    (busy R : FuncId → Prop) (prepare prepare' : FuncId → Compile Unit) : Prop :=
  ∀ (id : FuncId) (s : CompileState), s.Cut D busy → R id →
    (cutPact D kept o busy).Keeps o s (prepare id) (prepare' id) fun _ t => t.registry.Prepared id

/-- Code as it was built that names what it may is made to code that names functions that are prepared, with
or without the guard. -/
theorem cutPact_compilers (alarm : Compile Expr → Compile Expr) (budget : Nat) (ahead : Ahead D busy R)
    {prepare prepare' : FuncId → Compile Unit}
    (prepares : PrepareCuts D kept o busy R prepare prepare') :
    (cutPact D kept o busy).Compilers o (fun e => e.Untouched ∧ e.Within R) (fun r e => e.Grounded R r)
      (fun r id => R id ∧ r.Prepared id) (Expr.simplify budget) (Expr.simplifyGuarded kept alarm budget)
      prepare prepare' where
  part raw mem := ⟨raw.1.part mem, raw.2.part mem⟩
  later advances made := made.later advances
  remains advances prepared := ⟨prepared.1, advances.prepared prepared.2⟩
  enter _ hs := ⟨hs.registry, hs.busy⟩
  leave advances := advances
  near withholds := withholds
  refine s _ _ := .refl s.registry
  ready {e} _ raw ready := by
    have self := Expr.mem_nodes_self e
    cases e with
    | value v => exact (raw.1.value v self).mono fun _ => False.elim
    | focus => exact Expr.within_focus
    | error => exact Expr.within_error
    | closure c => exact absurd ready (by simp [Expr.Ready, raw.1.closure c self])
    | literal site c => exact absurd ready (by simp [Expr.Ready, raw.1.literal site c self])
    | _ => exact ready.elim
  var _ _ := Expr.within_var
  error _ _ := Expr.within_error
  coerce _ _ made := made.coerce _ _
  keepTail _ made := made.keepTail _
  prepares raw use hs := (prepares _ _ hs (raw.2.own use)).mono fun _ _ _ _ prepared =>
    ⟨raw.2.own use, prepared⟩
  simplifies hs code _ names parts :=
    Compile.simplified_cuts hs ahead alarm budget ((Expr.within_iff code).2 ⟨names, parts⟩)
  literals {_ _ c' _ _ _} _ _ _ _ ht target made :=
    Compile.simplified_cuts ht ahead alarm budget
      (Expr.within_literal.2 ⟨target, c'.within_parts.1 made.parts⟩)

theorem CompileState.Cut.update (hs : s.Cut D busy) (busy' : FuncId → Prop) {e : Entry}
    (found : s.registry.find? id = some e) {f : Entry → Entry} (undone : e.stage ≠ .compiled)
    (recursive : e.recursive = true → (f e).recursive = true)
    (cut : s.registry.Advances (s.registry.update id f) → (f e).Cut D (s.registry.update id f) id)
    (own : (f e).stage = .compiling ↔ busy' id) (others : ∀ x, x ≠ id → (busy' x ↔ busy x)) :
    CompileState.Cut D busy' { s with registry := s.registry.update id f } ∧
      s.registry.Advances (s.registry.update id f) := by
  have advances : s.registry.Advances (s.registry.update id f) := by
    intro x e' here
    rw [Registry.find?_update]
    split
    · rename_i same
      subst same
      cases found.symm.trans here
      exact ⟨f e, by rw [found]; rfl, fun compiled => absurd compiled undone, recursive⟩
    · exact ⟨e', here, fun _ => rfl, fun mark => mark⟩
  refine ⟨⟨Registry.forall_update found (cut advances) fun x e' _ here => ?_,
    Registry.forall_update found own fun x e' apart here => ?_⟩, advances⟩
  · exact (hs.registry x e' here).later hs.registry advances here
  · exact (hs.busy x e' here).trans (others x apart).symm

theorem CompileState.Cut.begin (hs : s.Cut D busy) {e : Entry}
    (found : s.registry.find? id = some e) (pending : e.stage = .pending) :
    ¬busy id ∧ (s.begun id).Cut D (fun x => x = id ∨ busy x) ∧
      s.registry.Advances (s.begun id).registry := by
  have idle : ¬busy id := fun going => by
    have compiling := (hs.busy id e found).2 going
    cases pending.symm.trans compiling
  have he := hs.registry id e found
  refine ⟨idle, hs.update _ found (by simp [pending]) (fun mark => mark) (fun _ => ?_)
    (iff_of_true rfl (.inl rfl)) fun x apart => by simp [apart]⟩
  exact ⟨nofun, nofun, fun _ _ => rfl, he.recursive, nofun⟩

namespace Compile

theorem finishFunction_cuts (idle : ¬busy id) (hs : s.Cut D (fun x => x = id ∨ busy x)) {e : Entry}
    (found : s.registry.find? id = some e) (scope : Scope) {made : Except QueryError Expr}
    (value : ∀ body, made = .ok body → body.Grounded (TransGen D id) s.registry) :
    (cutPact D kept o busy).Keeps o s (finishFunction id scope made) (finishFunction id scope made)
      fun _ t => t.registry.Prepared id := by
  have going : e.stage = .compiling := (hs.busy id e found).2 (.inl rfl)
  have he := hs.registry id e found
  have others : ∀ x, x ≠ id → (busy x ↔ x = id ∨ busy x) := fun x apart => by simp [apart]
  cases made with
  | error err =>
    have none : e.body = none := he.absent (by simp [going]) (by simp [going])
    obtain ⟨ht, hst⟩ := hs.update busy found
      (f := fun entry => { entry with scope, stage := .failed err }) (by simp [going])
      (fun mark => mark)
      (fun _ => ⟨by rintro ⟨⟩, by rintro ⟨⟩, fun _ _ => none, he.recursive, by rintro ⟨⟩⟩)
      (by simpa using idle) others
    refine .same fun result t run => ?_
    cases run
    exact ⟨ht, hst, by rintro _ ⟨⟩⟩
  | ok body =>
    let finished := keepTail o.tailCalls (body.coerce e.declared e.span)
    have hbody : finished.Grounded (TransGen D id) s.registry :=
      Expr.Within.keepTail (Expr.Within.coerce (value body rfl) _ _) _
    have there := Registry.find?_update_self found (Entry.finished o id scope body)
    obtain ⟨ht, hst⟩ := hs.update busy found (f := Entry.finished o id scope body) (by simp [going])
      (fun mark => by simp [Entry.finished, mark])
      (fun advances => by
        refine ⟨by rintro ⟨⟩, ?_, fun _ other => absurd rfl other, fun mark => ?_, fun _ => .intro id ?_⟩
        · rintro _ _ ⟨⟩
          exact hbody.later advances
        · rcases Bool.or_eq_true_iff.1 mark with before | uses
          · exact he.recursive before
          · exact (hbody id (Expr.names_of_uses uses)).1
        · rintro callee ⟨⟨-, e', _, found', present, names⟩, plain⟩
          cases there.symm.trans found'
          cases present
          have plain' : ¬s.registry.Recursive callee := fun mark => plain (advances.recursive mark)
          exact hs.registry.grounded advances ((hbody callee names).2.compiled plain'))
      (by simpa [Entry.finished] using idle) others
    exact .of_eq (a := ()) rfl ht hst ⟨_, there, .inl rfl⟩

theorem function_cuts (depth : Nat) {busy R : FuncId → Prop} (ahead : Ahead D busy R) :
    PrepareCuts D kept o busy R (function (Expr.simplify budget) depth)
      (function (Expr.simplifyGuarded kept alarm budget) depth) := by
  induction depth generalizing busy R with
  | zero => exact fun _ _ _ _ => .same (.of_fault rfl)
  | succ depth ih =>
    intro id s hs within
    refine (Pact.Keeps.entryOf hs id).bind fun e t ht _ here => ?_
    obtain ⟨found, rfl⟩ := here
    have he := ht.registry id e found
    split
    · rename_i compiled
      exact .pure ht ⟨e, found, .inl compiled⟩
    · rename_i compiling
      have going := (ht.busy id e found).1 compiling
      obtain ⟨hu, htu⟩ := ht.update busy found (f := fun e => { e with recursive := true })
        (by simp [compiling]) (fun _ => rfl)
        (fun advances => { he.later ht.registry advances found with
          recursive := fun _ => ahead.reached id id going within })
        (iff_of_true compiling going) fun _ _ => .rfl
      exact .of_eq (a := ()) rfl hu htu ⟨_, Registry.find?_update_self found _, .inr rfl⟩
    · exact .throw ht
    · rename_i pending
      split
      · exact .throw ht
      · rename_i body present
        obtain ⟨idle, hu, htu⟩ := ht.begin found pending
        obtain ⟨raw, names⟩ := he.pending pending body present
        have inner := ahead.inside within
        have entered : CompileState.Cut D (fun x => x = id ∨ busy x)
            { t.begun id with scope := e.scope } := ⟨hu.registry, hu.busy⟩
        have compilers := cutPact_compilers alarm budget inner (ih inner)
        have made := compilers.compileWith body _ entered ⟨raw, names.mono fun _ => .single⟩
        refine Pact.Keeps.enclosing (t := t.begun id) rfl rfl htu (compilers.inScope e.scope made)
          (inScope_quiet _ _) (fun h => h) (fun h => h) fun made v hv huv value => ?_
        obtain ⟨e', here, -, -⟩ := huv id _ (CompileState.find?_begun found)
        exact finishFunction_cuts idle hv here made.2 value.1

theorem registeredWith_cuts (hs : s.Cut D fun _ => False) :
    (cutPact D kept o fun _ => False).Keeps o s (registeredWith (Expr.simplify budget) id)
      (registeredWith (Expr.simplifyGuarded kept alarm budget) id) fun _ _ => True := by
  refine (Pact.Keeps.get hs).bind fun _ t ht _ same => ?_
  obtain ⟨rfl, rfl⟩ := same
  exact (function_cuts _ .idle id t ht trivial).mono fun _ _ _ _ _ => trivial

theorem expressionWith_cuts (hs : s.Cut D fun _ => False) {e : Expr} (raw : e.Untouched) :
    (cutPact D kept o fun _ => False).Makes (fun r e => e.Grounded (fun _ => True) r) o s
      (expressionWith (Expr.simplify budget) e)
      (expressionWith (Expr.simplifyGuarded kept alarm budget) e) := by
  refine (Pact.Keeps.get hs).bind fun _ t ht _ same => ?_
  obtain ⟨rfl, rfl⟩ := same
  exact (cutPact_compilers _ _ .idle (function_cuts _ .idle)).compileWith e t ht ⟨raw, fun _ _ => trivial⟩

end Compile

end QueryFunctions
