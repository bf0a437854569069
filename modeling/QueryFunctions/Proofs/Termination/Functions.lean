import QueryFunctions.Proofs.Form.Functions
import QueryFunctions.Proofs.Termination.Chain
import QueryFunctions.Proofs.Termination.Compilation

/-! Functions settle when they are compiled, by induction on how many nobody has begun to compile: a
function that is reached again while it is in the making is only marked. From them it follows for the main
expression and for all functions that are mentioned. -/
namespace QueryFunctions

open Contract

variable {o : Options} {origins : Finset Origin} {depth depth' : Nat} {busy busy' : FuncId → Prop}
  {s : CompileState} {id : FuncId} {e : Entry}

theorem CompileState.Tame.update (hs : s.Tame o origins depth busy) (found : s.registry.find? id = some e)
    {f : Entry → Entry} (begun : (f e).stage ≠ .pending) (closed : e.Closed o → (f e).Closed o)
    (body : ∀ body, (f e).body = some body → body.TameAt o origins s)
    (left : (s.registry.update id f).pending < depth')
    (going : ∀ x, busy' x → if x = id then (f e).stage = .compiling else busy x) :
    CompileState.Tame o origins depth' busy' { s with registry := s.registry.update id f } ∧
      CompileState.Narrows o s { s with registry := s.registry.update id f } := by
  have narrows : CompileState.Narrows o s { s with registry := s.registry.update id f } := by
    refine ⟨Nat.le_refl _, ?_, fun x e' here closed' => ?_⟩
    · have counted := Registry.pending_update (f := f) found
      rw [if_neg begun] at counted
      exact Nat.le_trans (Nat.le_add_right _ _) (Nat.le_of_eq counted)
    · rw [Registry.find?_update]
      split
      · rename_i same
        subst same
        cases found.symm.trans here
        exact ⟨f e, by rw [found]; rfl, closed closed'⟩
      · exact ⟨e', here, closed'⟩
  refine ⟨⟨fun x e' b here pending present => ?_, fun x e' b here settled present => ?_, left,
    fun x busy => ?_⟩, narrows⟩
  · rw [Registry.find?_update] at here
    split at here
    · rename_i same
      subst same
      rw [found] at here
      cases here
      exact absurd pending begun
    · exact hs.built x e' b here pending present
  · rw [Registry.find?_update] at here
    split at here
    · rename_i same
      subst same
      rw [found] at here
      cases here
      exact (body b present).later narrows
    · exact Expr.TameAt.later (hs.tame x e' b here settled present) narrows
  · have still := going x busy
    simp only [Registry.find?_update]
    split at still
    · rename_i same
      subst same
      exact ⟨f e, by rw [if_pos rfl, found]; rfl, still⟩
    · rename_i apart
      rw [if_neg apart]
      exact hs.busy x still

theorem CompileState.Tame.record (hs : s.Tame o origins depth busy) (found : s.registry.find? id = some e)
    (compiling : e.stage = .compiling) {f : Entry → Entry} (begun : (f e).stage ≠ .pending)
    (recursive : e.recursive = true → (f e).recursive = true)
    (body : ∀ body, (f e).body = some body → body.TameAt o origins s)
    (going : busy id → (f e).stage = .compiling) :
    CompileState.Tame o origins depth busy { s with registry := s.registry.update id f } ∧
      CompileState.Narrows o s { s with registry := s.registry.update id f } := by
  refine hs.update found begun (fun closed => .inl (recursive ?_)) body ?_ fun x busy => ?_
  · rcases closed with recursive | ⟨compiled, -⟩
    · exact recursive
    · cases compiling.symm.trans compiled
  · have counted := Registry.pending_update (f := f) found
    rw [if_neg begun, if_neg (by simp [compiling])] at counted
    exact Nat.lt_of_le_of_lt (Nat.le_of_eq counted) hs.pending
  · split
    · rename_i same
      exact going (same ▸ busy)
    · exact busy

theorem CompileState.Tame.begin (hs : s.Tame o origins (depth + 1) busy)
    (found : s.registry.find? id = some e) (pending : e.stage = .pending) :
    (s.begun id).Tame o origins depth (fun x => x = id ∨ busy x) ∧
      CompileState.Narrows o s (s.begun id) := by
  let begun (e : Entry) : Entry := { e with stage := .compiling, body := none, scope := {} }
  refine hs.update found (f := begun) (by simp [begun]) (fun closed => .inl ?_) (by simp [begun]) ?_
    fun x going => ?_
  · rcases closed with recursive | ⟨compiled, -⟩
    · exact recursive
    · cases pending.symm.trans compiled
  · have counted := Registry.pending_update (f := begun) found
    rw [if_pos pending, if_neg (by simp [begun])] at counted
    have below := hs.pending
    omega
  · split
    · rfl
    · rename_i apart
      exact going.resolve_left apart

namespace Compile

theorem finishFunction_keeps (hs : s.Tame o origins depth busy) (idle : ¬busy id)
    (found : s.registry.find? id = some e) (compiling : e.stage = .compiling) (scope : Scope)
    {result : Except QueryError Expr} (made : ∀ body, result = .ok body → body.TameAt o origins s) :
    (tameContract o origins depth busy).Keeps o s (finishFunction id scope result) fun _ t =>
      t.registry.Prepared id := by
  cases result with
  | error err =>
    obtain ⟨ht, hst⟩ := hs.record found compiling
      (f := fun entry => { entry with scope, stage := .failed err }) (by simp) (fun h => h)
      (fun body present => hs.tame id e body found (by simp [compiling]) present) fun going =>
        absurd going idle
    exact ⟨ht, hst, trivial⟩
  | ok body =>
    obtain ⟨ht, hst⟩ :=
      hs.record found compiling (f := Entry.finished o id scope body) (by simp [Entry.finished])
      (fun recursive => by simp [Entry.finished, recursive]) (fun b present => by
        cases present
        exact Expr.Tame.keepTail (Expr.Tame.coerce (made body rfl) _ _) _) fun going =>
          absurd going idle
    exact Keeps.of_eq (a := ()) rfl ht hst ⟨_, Registry.find?_update_self found _, .inl rfl⟩

theorem function_settles (depth : Nat) (busy : FuncId → Prop) : Prepares o origins depth busy
    fun alarm n => function (Expr.watched [] alarm n) depth := by
  induction depth generalizing busy with
  | zero => exact fun id s hs => absurd hs.pending (Nat.not_lt_zero _)
  | succ depth ih =>
    intro id s hs
    refine Settles.keeps_bind (Keeps.entryOf hs fun _ => by simp [tameContract]) fun e t ht _ here => ?_
    obtain ⟨found, rfl⟩ := here
    split
    · rename_i compiled
      exact Settles.pure ht ⟨e, found, .inl compiled⟩
    · rename_i compiling
      obtain ⟨hu, htu⟩ := ht.record found compiling (f := fun e => { e with recursive := true })
        (by simp [compiling]) (fun _ => rfl)
        (fun body present => ht.tame id e body found (by simp [compiling]) present) fun _ => compiling
      exact Settles.of_keeps (Keeps.of_eq (a := ()) rfl hu htu
        ⟨_, Registry.find?_update_self found _, .inr rfl⟩)
    · exact Settles.of_keeps (Keeps.throw ht trivial)
    · rename_i pending
      split
      · exact Settles.of_keeps (Keeps.throw ht trivial)
      · rename_i body present
        have idle : ¬busy id := fun going => by
          obtain ⟨e', found', compiling⟩ := ht.busy id going
          cases found.symm.trans found'
          cases pending.symm.trans compiling
        obtain ⟨hu, htu⟩ := ht.begin found pending
        have inner : CompileState.Tame o origins depth (fun x => x = id ∨ busy x)
            { t.begun id with scope := e.scope } := by
          exact (hu.later (t := { t.begun id with scope := e.scope }) rfl (Nat.le_refl _)).1
        have compiles := (body.compileWith_settles (ih _) _ inner
          (ht.built id e body found pending present)).inScope
            (fun u scope hu => (hu.later (t := { u with scope }) rfl (Nat.le_refl _)).1)
            fun _ _ _ _ h => ⟨h.supply, h.pending, h.closed⟩
        have rest : (tameContract o origins (depth + 1) busy).Settles o (t.begun id)
            (fun alarm n => do
              let made ← inScope e.scope
                (body.compileWith (Expr.watched [] alarm n) (function (Expr.watched [] alarm n) depth))
              finishFunction id made.2 made.1) fun _ u => u.registry.Prepared id := by
          refine Settles.bind (compiles.outward (Nat.lt_succ_of_lt hu.pending) fun _ => .inr)
            fun x v hv _ hx => Settles.of_keeps ?_
          obtain ⟨⟨value, -⟩, going⟩ := hx
          obtain ⟨e', found', compiling⟩ := going id (.inl rfl)
          exact finishFunction_keeps hv idle found' compiling x.2 value
        exact rest.after (fun _ _ => rfl) htu

theorem registeredWith_settles (hs : s.Tame o origins depth busy) :
    (tameContract o origins depth busy).Settles o s
      (fun alarm n => registeredWith (Expr.watched [] alarm n) id) fun _ _ => True := by
  refine Settles.keeps_bind (Keeps.get hs) fun _ t ht _ same => ?_
  obtain ⟨rfl, rfl⟩ := same
  have enough : t.Tame o origins (t.registry.entries.length + 1) busy :=
    { ht with pending := Nat.lt_succ_of_le List.countP_le_length }
  exact ((function_settles _ busy id t enough).outward ht.pending fun _ going => going).mono
    fun _ _ _ _ _ => trivial

theorem expressionWith_settles (hs : s.Tame o origins depth busy) {e : Expr}
    (he : e.Built origins s.supply.nextVar) : (tameContract o origins depth busy).Settles o s
      (fun alarm n => expressionWith (Expr.watched [] alarm n) e) fun _ _ => True := by
  refine Settles.keeps_bind (Keeps.get hs) fun _ t ht _ same => ?_
  obtain ⟨rfl, rfl⟩ := same
  have enough : t.Tame o origins (t.registry.entries.length + 1) busy :=
    { ht with pending := Nat.lt_succ_of_le List.countP_le_length }
  exact ((e.compileWith_settles (function_settles _ busy) t enough he).outward ht.pending
    fun _ going => going).mono fun _ _ _ _ _ => trivial

end Compile

/-- A computation that ends by itself, whatever comes of it. -/
def endingContract : Contract CompileState where
  holds _ := True
  leads _ _ := True
  refl _ := trivial
  trans _ _ := trivial
  raises _ := True
  faults f := f ≠ .budget

theorem Contract.Settles.ends {ι α : Type} {act : ι → Nat → Compile α} {post : α → CompileState → Prop}
    (h : (tameContract o origins depth busy).Settles o s act post) :
    endingContract.Settles o s act fun _ t => t.Tame o origins depth busy := by
  refine h.through (fun p => p) (fun _ _ => rfl) fun p admits => ?_
  obtain ⟨f | err | a, t⟩ := p
  · exact ⟨trivial, admits.2⟩
  · exact ⟨trivial, trivial, trivial⟩
  · exact ⟨trivial, trivial, admits.1⟩

namespace Query

theorem compileMainWith_settles (hs : s.Tame o origins depth busy) {main : Expr}
    (hmain : main.Built origins s.supply.nextVar) : endingContract.Settles o s
      (fun alarm n => compileMainWith (Expr.watched [] alarm n) main) fun _ _ => True := by
  refine Settles.bind (Compile.expressionWith_settles hs hmain).ends fun e t _ _ ht => ?_
  have mentioned : endingContract.Settles o t
      (fun alarm n => Compile.mentionedWith (Expr.watched [] alarm n)) fun _ _ => True := by
    refine Settles.keeps_bind (Keeps.get trivial) fun _ u _ _ same => ?_
    obtain ⟨rfl, rfl⟩ := same
    have all := Settles.forM (c := tameContract o origins depth busy)
      (f := fun alarm n (x : Entry × Nat) => Compile.registeredWith (Expr.watched [] alarm n) ⟨x.2⟩)
      (fun x v hv => Compile.registeredWith_settles hv)
      (u.registry.entries.zipIdx.filter fun x => !x.1.calls.isEmpty && x.1.defined) u ht
    exact Settles.bind all.ends fun _ v _ _ _ => Settles.of_keeps (Keeps.of_eq rfl trivial trivial trivial)
  refine Settles.bind mentioned fun _ u hu _ _ => Settles.of_keeps ?_
  exact Keeps.of_eq rfl trivial trivial trivial

end Query

end QueryFunctions
