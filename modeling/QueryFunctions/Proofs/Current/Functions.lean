import QueryFunctions.Proofs.Current.Compilation
import QueryFunctions.Proofs.Form.Compilation

/-! A whole query once its compilation has come to an end, be it with an error: all function bodies that
are left are current, and so is the main expression. -/
namespace QueryFunctions

variable {n : Nat} {o : Options} {s t : CompileState} {id : FuncId}

structure Entry.Stocked (n : Nat) (supply : Supply) (e : Entry) : Prop where
  scope : e.scope.Sound supply
  body : ∀ body, e.body = some body → body.Current supply e.scope.Lists
  pending : ∀ body, e.stage = .pending → e.body = some body →
    body.Staged n e.scope.Lists (· ∈ e.params) ∧ Apart n (· ∈ e.params) body.lets
  compiling : e.stage = .compiling → e.body = none

namespace CompileState

theorem Stocked.entry (hs : s.Stocked n) {e : Entry} (found : s.registry.find? id = some e) :
    e.Stocked n s.supply :=
  ⟨hs.scopes id e found, fun body present => hs.functions id e body found present,
    fun body pending present => hs.pending id e body found pending present, hs.compiling id e found⟩

theorem Stocked.of_entries (drawn : n ≤ s.supply.nextVar) (scope : s.scope.Sound s.supply)
    (entries : ∀ f e, s.registry.find? f = some e → e.Stocked n s.supply) : s.Stocked n where
  drawn := drawn
  scope := scope
  scopes f e found := (entries f e found).scope
  functions f e body found present := (entries f e found).body body present
  pending f e body found pending present := (entries f e found).pending body pending present
  compiling f e found := (entries f e found).compiling

theorem Stocked.update (hs : s.Stocked n) {e : Entry} (found : s.registry.find? id = some e)
    {f : Entry → Entry} (own : (f e).Stocked n s.supply) :
    CompileState.Stocked n { s with registry := s.registry.update id f } :=
  .of_entries hs.drawn hs.scope
    (Registry.forall_update found own fun _ _ _ found => hs.entry found)

theorem Works.update (hst : s.Works t) {f : Entry → Entry}
    (kept : ∀ e e', s.registry.find? id = some e → t.registry.find? id = some e' →
      e.stage = .compiling → (f e').stage = .compiling) :
    s.Works { t with registry := t.registry.update id f } where
  supply := hst.supply
  scope := hst.scope
  compiling x e found going := by
    obtain ⟨e', found', going'⟩ := hst.compiling x e found going
    simp only [Registry.find?_update]
    split
    · rename_i same
      subst same
      exact ⟨f e', by rw [found']; rfl, kept e e' found found' going⟩
    · exact ⟨e', found', going'⟩

end CompileState

namespace Compile

theorem finishFunction_current (ht : t.Stocked n) (hst : s.Works t)
    (idle : ∀ e, s.registry.find? id = some e → e.stage ≠ .compiling)
    {e : Entry} (found : t.registry.find? id = some e) (going : e.stage = .compiling) {scope : Scope}
    {made : Except QueryError Expr} (sound : scope.Sound t.supply)
    (value : ∀ body, made = .ok body → body.Current t.supply scope.Lists)
    {result : Except QueryError Unit} {u : CompileState}
    (run : finishFunction id scope made o t = (.ok result, u)) :
    u.Stocked n ∧ s.Works u ∧ u.scope = t.scope := by
  have works : ∀ f, s.Works { t with registry := t.registry.update id f } := fun f =>
    hst.update fun e _ here _ compiling => absurd compiling (idle e here)
  have absent := (ht.entry found).compiling going
  cases made with
  | error err =>
    cases run
    refine ⟨ht.update found ⟨sound, fun body present => ?_, nofun, nofun⟩, works _, rfl⟩
    rw [absent] at present
    cases present
  | ok body =>
    cases run
    refine ⟨ht.update found (f := Entry.finished o id scope body) ⟨sound, ?_, nofun, nofun⟩, works _, rfl⟩
    rintro _ ⟨⟩
    exact ((value body rfl).coerce _ _).keepTail _

section

variable {simplify : Expr → Compile Expr} (simplifies : SimplifierStaysCurrent n o simplify)

include simplifies

theorem function_current (depth : Nat) : PrepareStocks n o (function simplify depth) := by
  induction depth with
  | zero => exact fun _ _ _ => .same (.of_fault rfl)
  | succ depth ih =>
    intro id s hs
    refine (Pact.Keeps.entryOf hs id).bind fun entry t ht _ here => ?_
    obtain ⟨found, rfl⟩ := here
    have stocked := ht.entry found
    split
    · exact .pure ht rfl
    · refine .of_eq (a := ()) rfl (ht.update found ⟨stocked.scope, stocked.body, stocked.pending,
        stocked.compiling⟩) ?_ rfl
      refine CompileState.Works.update ((stocking n).refl t) fun e e' here here' going => ?_
      cases here.symm.trans here'
      exact going
    · exact .throw ht
    · rename_i pending
      split
      · exact .throw ht
      · rename_i body present
        obtain ⟨staged, apart⟩ := stocked.pending body pending present
        have idle : ∀ e, t.registry.find? id = some e → e.stage ≠ .compiling := by
          intro e here going
          cases found.symm.trans here
          rw [pending] at going
          cases going
        have hu : (t.begun id).Stocked n := ht.update found ⟨.empty _, nofun, nofun, fun _ => rfl⟩
        have htu : t.Works (t.begun id) := CompileState.Works.update ((stocking n).refl t)
          fun e _ here _ going => absurd going (idle e here)
        have compiled := Expr.compileWith_current simplifies ih body
          { t.begun id with scope := entry.scope } (hu.inner stocked.scope) entry.scope.has_lists staged
          apart
        refine .same (Law.Keeps.enclosing (t := t.begun id) rfl htu (inScope_held _ compiled fun v hv huv =>
          ⟨hv.inner (hu.scope.mono huv.supply), huv.supply, .refl _, huv.compiling⟩).law
          fun x v hv huv hx result w run => ?_)
        obtain ⟨v, hv', rfl, scope, -, made⟩ := hx
        obtain ⟨e, here, going⟩ := huv.compiling id _ (CompileState.find?_begun found) rfl
        obtain ⟨hw, htw, same⟩ := finishFunction_current hv ((stocking n).trans htu huv) idle here going
          (scope ▸ hv'.scope) (fun body ok => scope ▸ (made body ok).1.lists) run
        exact ⟨hw, htw, fun _ _ => same⟩

end

theorem registered_current (budget : Nat) (id : FuncId) (hs : s.Stocked n) :
    Stocks n o s (registered budget id) fun _ _ => True := by
  refine (Pact.Keeps.get hs).bind fun _ t ht _ same => ?_
  obtain ⟨rfl, rfl⟩ := same
  exact (function_current (Expr.simplify_current n o budget) _ id t ht).mono fun _ _ _ _ _ => trivial

theorem expression_current (budget : Nat) {e : Expr} {known : Listing} {visible : VarId → Prop}
    (hs : s.Stocked n) (has : s.scope.Has known) (he : e.Staged n known visible)
    (apart : Apart n visible e.lets) :
    Stocks n o s (expression budget e) fun e' t => e'.Current t.supply t.scope.Lists := by
  have simplifies := Expr.simplify_current n o budget
  refine (Pact.Keeps.get hs).bind fun _ t ht _ same => ?_
  obtain ⟨rfl, rfl⟩ := same
  exact (Expr.compileWith_current simplifies (function_current simplifies _) e t ht has he apart).mono
    fun _ _ _ _ made => made.1.lists

theorem propagateFlags_current (hs : s.Stocked n) :
    Stocks n o s (modifyRegistry (·.propagateFlags)) fun _ _ => True := by
  refine .of_eq rfl (.of_entries hs.drawn hs.scope fun f e' found' => ?_)
    ⟨Nat.le_refl _, .refl _, fun f e found going => ?_⟩ trivial
  · rw [Registry.find?_propagateFlags] at found'
    obtain ⟨e, found, rfl⟩ := Option.map_eq_some_iff.1 found'
    have he := hs.entry found
    split
    · rename_i compiled
      -- Only compiled functions have call edges, so no pending body is rewritten.
      have settled : e.stage = .compiled := by
        rw [List.contains_iff_mem] at compiled
        obtain ⟨edge, mem, rfl⟩ := List.mem_map.1 compiled
        obtain ⟨⟨e', index⟩, here, some⟩ := List.mem_filterMap.1 mem
        have there := List.mem_zipIdx_iff_getElem?.1 here
        dsimp only at some
        split at some
        · rename_i stage
          obtain ⟨body, -, rfl⟩ := Option.map_eq_some_iff.1 some
          cases there.symm.trans found
          exact stage
        · cases some
      refine ⟨he.scope, fun body present => ?_, fun _ pending => ?_, fun going => ?_⟩
      · obtain ⟨old, here, rfl⟩ := Option.map_eq_some_iff.1 present
        exact (he.body old here).mapSites _ _
      · exact absurd (settled.symm.trans pending) nofun
      · exact absurd (settled.symm.trans going) nofun
    · exact ⟨he.scope, he.body, he.pending, he.compiling⟩
  · exact ⟨_, (Registry.find?_propagateFlags _ f).trans (congrArg _ found), going⟩

theorem mentioned_current (budget : Nat) (hs : s.Stocked n) :
    Stocks n o s (mentioned budget) fun _ _ => True := by
  refine (Pact.Keeps.get hs).bind fun _ t ht _ _ => ?_
  refine (Pact.Keeps.forM (fun p u hu => registered_current budget ⟨p.2⟩ hu) _ t ht).skip
    fun _ u hu _ => propagateFlags_current hu

end Compile

namespace Query

theorem compileMain_current (budget : Nat) {main : Expr} {known : Listing} {visible : VarId → Prop}
    (hs : s.Stocked n) (has : s.scope.Has known) (hmain : main.Staged n known visible)
    (apart : Apart n visible main.lets) :
    Compile.Stocks n o s (compileMain budget main) fun e t =>
      ∃ scope : Scope, scope.Sound t.supply ∧ e.Current t.supply scope.Lists := by
  refine (Compile.expression_current budget hs has hmain apart).bind fun made t ht _ hmade => ?_
  refine (Compile.mentioned_current budget ht).skip fun _ u hu htu => ?_
  refine (Pact.Keeps.get hu).bind fun _ v hv _ same => ?_
  obtain ⟨rfl, rfl⟩ := same
  exact .pure hv ⟨t.scope, ht.scope.mono htu.supply, (hmade.mono htu.supply fun here => here).mapSites _ _⟩

structure Staged (q : Query) : Prop where
  stage : q.stage = .built
  scope : q.scope.Sound q.supply
  functions : ∀ f e, q.registry.find? f = some e → e.Stocked q.supply.nextVar q.supply
  main : q.main.Staged q.supply.nextVar q.scope.Lists fun _ => False
  apart : Apart q.supply.nextVar (fun _ => False) q.main.lets

structure Current (q : Query) : Prop where
  scope : q.scope.Sound q.supply
  functions : ∀ f e, q.registry.find? f = some e → e.scope.Sound q.supply ∧
    ∀ body, e.body = some body → body.Current q.supply e.scope.Lists
  main : ∃ scope : Scope, scope.Sound q.supply ∧ q.main.Current q.supply scope.Lists

theorem Staged.current {q : Query} (h : q.Staged) : q.Current where
  scope := h.scope
  functions f e found := ⟨(h.functions f e found).scope, (h.functions f e found).body⟩
  main := ⟨q.scope, h.scope, h.main.current (Nat.le_refl _)⟩

theorem Staged.stocked {q : Query} (h : q.Staged) :
    CompileState.Stocked q.supply.nextVar ⟨q.supply, q.registry, q.scope⟩ :=
  .of_entries (Nat.le_refl _) h.scope h.functions

theorem Staged.compile {q q' : Query} (h : q.Staged) {budget : Nat} {result : Except QueryError Unit}
    (ran : q.compile budget = (.ok result, q')) : q'.Current ∧ q.supply.nextVar ≤ q'.supply.nextVar := by
  have hs := h.stocked
  unfold Query.compile at ran
  rw [h.stage] at ran
  dsimp only at ran
  split at ran
  · cases ran
    exact ⟨⟨h.scope, h.current.functions, h.current.main⟩, Nat.le_refl _⟩
  · have made := (compileMain_current (o := q.options) budget hs q.scope.has_lists h.main h.apart).law
    have same : (compileMain budget q.main).outcome q.options ⟨q.supply, q.registry, q.scope⟩ =
      compileMain budget q.main q.options ⟨q.supply, q.registry, q.scope⟩ := rfl
    rw [same] at ran
    unfold Law.Keeps at made
    generalize compileMain budget q.main q.options ⟨q.supply, q.registry, q.scope⟩ = outcome at ran made
    obtain ⟨f | err | main, t⟩ := outcome
    · cases ran
    · cases ran
      obtain ⟨ht, hst, -⟩ := made _ _ rfl
      have drawn := h.scope.mono hst.supply
      exact ⟨⟨ht.scope, fun f e found => ⟨(ht.entry found).scope, (ht.entry found).body⟩,
        q.scope, drawn, h.main.current hst.supply⟩, hst.supply⟩
    · cases ran
      obtain ⟨ht, hst, value⟩ := made _ _ rfl
      exact ⟨⟨ht.scope, fun f e found => ⟨(ht.entry found).scope, (ht.entry found).body⟩, value _ rfl⟩,
        hst.supply⟩

end Query

end QueryFunctions
