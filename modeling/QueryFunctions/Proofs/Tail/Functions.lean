import QueryFunctions.Compile.Function
import QueryFunctions.Proofs.Tail.Simplify

/-! Compilation with tail calls. It goes the same way as without: bodies are marked when they are
finished, and nothing that is decided afterwards depends on the marks. -/
namespace QueryFunctions

open Compile (tails)

namespace Closure.MoreTail

variable {c c' : Closure}

theorem adaptTo (h : c.MoreTail c') {target target' : Entry} (ht : target.MoreTail target') :
    (c.adaptTo target).MoreTail (c'.adaptTo target') := by
  unfold Closure.adaptTo
  rw [ht.paramVariables_eq, ht.declared_eq, ht.annotations_eq]
  cases h with
  | closure _ _ _ _ _ _ _ _ h h' => exact .closure _ _ _ _ _ _ _ _ h h'

theorem compileParts_follows (h : c.MoreTail c')
    {supplies supplies' : Compile (List (VarId × Expr))} {body body' : Compile Expr}
    (hsupplies : tails.Follows SuppliesMoreTail supplies supplies')
    (hbody : tails.Follows Expr.MoreTail body body') :
    tails.Follows Closure.MoreTail (c.compileParts supplies body)
      (c'.compileParts supplies' body') := by
  unfold compileParts
  refine hsupplies.bind fun es es' hes => ?_
  rw [h.scope_eq, h.declared_eq, h.span_eq]
  dsimp only
  refine (Compile.inScope_follows ?_ hbody).bind fun p q hpq => ?_
  · generalize c.scope = scope
    rw [suppliesMoreTail_iff] at hes
    induction hes generalizing scope with
    | nil => rfl
    | cons hpq _ ih =>
      simp only [List.foldl_cons, hpq.1, hpq.2.inferredType_eq]
      exact ih _
  obtain ⟨result, scope⟩ := p
  obtain ⟨result', scope'⟩ := q
  obtain ⟨ends, rfl⟩ := hpq
  have coerced := ends.map fun (e e' : Expr) (he : e.MoreTail e') => he.coerce c.declared c.span
  refine (Compile.deferred_follows coerced).bind fun e e' he => ?_
  refine Likeness.Follows.read.bind fun o o' ho => .pure ?_
  have marked := Compile.keepTail_moreTail ho.tail he
  cases h with
  | closure => exact .closure _ _ _ _ _ _ _ _ hes marked

end Closure.MoreTail

namespace Compile

theorem compileRef_follows (ref : VarRef) :
    tails.Follows Expr.MoreTail (compileRef ref) (compileRef ref) := by
  refine Likeness.Follows.get.bind fun s s' hs => ?_
  rw [hs.scope]
  split <;> exact .pure (.refl _)

end Compile

section

variable {simplify : Expr → Compile Expr} {prepare prepare' : FuncId → Compile Unit}
  (simplifies : SimplifierFollows simplify)

include simplifies

namespace Compile

theorem compileCall_follows {site site' : CallSite} (hsite : site.MoreTail site')
    {args args' : List Expr} (h : ListMoreTail args args') :
    tails.Follows Expr.MoreTail (compileCall simplify site args)
      (compileCall simplify site' args') := by
  unfold compileCall
  rw [hsite.target_eq]
  refine (entryOf_follows _).bind fun entry entry' hentry => ?_
  have name : site'.name = site.name := by rw [hsite.same]
  rw [hentry.arity_eq, h.length_eq, name, hsite.span_eq, hentry.flags_eq, hentry.annotations_eq,
    hentry.retType_eq]
  refine .ite Iff.rfl ((Likeness.Follows.throw _).bind fun _ _ (none : False) => none.elim) ?_
  exact simplifies (.call ⟨rfl, hsite.tail⟩ h)

end Compile

omit simplifies

/-- Functions are simplified and prepared alike on both sides. -/
structure CompilerFollows (simplify : Expr → Compile Expr) (prepare prepare' : FuncId → Compile Unit) :
    Prop where
  simplifies : SimplifierFollows simplify
  prepares : ∀ id, tails.Follows (fun _ _ => True) (prepare id) (prepare' id)

mutual
theorem Expr.MoreTail.compile_follows (c : CompilerFollows simplify prepare prepare') :
    {e e' : Expr} → e.MoreTail e' →
    tails.Follows Expr.MoreTail (e.compileWith simplify prepare) (e'.compileWith simplify prepare')
  | _, _, .value h => .pure (.value h)
  | _, _, .focus span => .pure (.focus span)
  | _, _, .error e => .pure (.error e)
  | _, _, .var ref => Compile.compileRef_follows ref
  | _, _, .letIn id slot h h' => (h.compile_follows c).bind fun v v' hv => by
    rw [hv.inferredType_eq]
    exact (Compile.modifyScope_follows _).bind fun _ _ _ => (h'.compile_follows c).bind fun _ _ hb =>
      c.simplifies (.letIn id slot hv hb)
  | _, _, .branch span h h' h'' => (h.compile_follows c).bind fun _ _ hc =>
    (h'.compile_follows c).bind fun _ _ hy => (h''.compile_follows c).bind fun _ _ hn =>
      c.simplifies (.branch span hc hy hn)
  | _, _, .arith op span h h' => (h.compile_follows c).bind fun _ _ hl =>
    (h'.compile_follows c).bind fun _ _ hr => c.simplifies (.arith op span hl hr)
  | _, _, .compare op span h h' => (h.compile_follows c).bind fun _ _ hl =>
    (h'.compile_follows c).bind fun _ _ hr => c.simplifies (.compare op span hl hr)
  | _, _, .seq h => (h.compile_follows c).bind fun _ _ hes => c.simplifies (.seq hes)
  | _, _, .treat type span h => (h.compile_follows c).bind fun _ _ he => c.simplifies (.treat type span he)
  | _, _, .builtin function span h => (h.compile_follows c).bind fun _ _ hes =>
    c.simplifies (.builtin function span hes)
  | _, _, .closure h => by
    have made := h.compile_follows c
    unfold Expr.compileWith
    rw [h.compiled_eq]
    exact .ite Iff.rfl (.pure (.closure h)) (made.bind fun _ _ hc => c.simplifies (.closure hc))
  | _, _, .literal site h => by
    have made := fun {target target'} (ht : Entry.MoreTail target target') => h.compileAs_follows c ht
    unfold Expr.compileWith
    rw [h.compiled_eq]
    refine .ite Iff.rfl (.pure (.literal site h)) ((c.prepares _).bind fun _ _ _ => ?_)
    exact (Compile.entryOf_follows _).bind fun _ _ ht => (made ht).bind fun _ _ hc =>
      c.simplifies (.literal site hc)
  | _, _, .partialApply site h h' => (h.compile_follows c).bind fun _ _ ht =>
    (h'.compile_follows c).bind fun _ _ hes => c.simplifies (.partialApply site ht hes)
  | _, _, .call hsite h => (h.compile_follows c).bind fun _ _ hes => by
    rw [hsite.target_eq]
    exact (c.prepares _).bind fun _ _ _ => Compile.compileCall_follows c.simplifies hsite hes
  | _, _, .dynamicCall hsite h h' => (h.compile_follows c).bind fun _ _ hf =>
    (h'.compile_follows c).bind fun _ _ hes => c.simplifies (.dynamicCall hsite hf hes)

theorem ListMoreTail.compile_follows (c : CompilerFollows simplify prepare prepare') :
    {es es' : List Expr} → ListMoreTail es es' →
    tails.Follows ListMoreTail (compileList simplify prepare es) (compileList simplify prepare' es')
  | _, _, .nil => .pure .nil
  | _, _, .cons h h' => (h.compile_follows c).bind fun _ _ he => (h'.compile_follows c).bind fun _ _ hes =>
    .pure (.cons he hes)

theorem Closure.MoreTail.compile_follows (c : CompilerFollows simplify prepare prepare') :
    {f f' : Closure} → f.MoreTail f' →
    tails.Follows Closure.MoreTail (f.compileWith simplify prepare) (f'.compileWith simplify prepare')
  | _, _, .closure name params declared annotations scope origin compiled span h h' =>
    Closure.MoreTail.compileParts_follows
      (.closure name params declared annotations scope origin compiled span h h')
      (h.compile_follows c) (h'.compile_follows c)

theorem Closure.MoreTail.compileAs_follows (c : CompilerFollows simplify prepare prepare')
    {target target' : Entry} (ht : target.MoreTail target') : {f f' : Closure} → f.MoreTail f' →
    tails.Follows Closure.MoreTail (f.compileAs target simplify prepare)
      (f'.compileAs target' simplify prepare')
  | _, _, .closure name params declared annotations scope origin compiled span h h' =>
    Closure.MoreTail.compileParts_follows (Closure.MoreTail.adaptTo
      (.closure name params declared annotations scope origin compiled span h h') ht)
      (h.compile_follows c) (h'.compile_follows c)

theorem SuppliesMoreTail.compile_follows (c : CompilerFollows simplify prepare prepare') :
    {es es' : List (VarId × Expr)} → SuppliesMoreTail es es' →
    tails.Follows SuppliesMoreTail (compileSupplies simplify prepare es)
      (compileSupplies simplify prepare' es')
  | _, _, .nil => .pure .nil
  | _, _, .cons id h h' => (h.compile_follows c).bind fun _ _ he =>
    (h'.compile_follows c).bind fun _ _ hes => .pure (.cons id he hes)
end

end

namespace Registry.MoreTail

variable {r r' : Registry}

theorem update (h : r.MoreTail r') (id : FuncId) {f f' : Entry → Entry}
    (each : ∀ {e e' : Entry}, e.MoreTail e' → (f e).MoreTail (f' e')) :
    (r.update id f).MoreTail (r'.update id f') where
  entries := by
    have entries := h.entries
    simp only [Registry.update]
    generalize r.entries = es at entries ⊢
    generalize r'.entries = es' at entries ⊢
    generalize id.index = i
    induction entries generalizing i with
    | nil =>
      rw [List.modify_nil, List.modify_nil]
      exact .nil
    | cons he hes ih =>
      cases i with
      | zero => exact .cons (each he) hes
      | succ i => exact .cons he (ih i)

theorem zipIdx (h : r.MoreTail r') :
    List.Forall₂ (fun p q => p.1.MoreTail q.1 ∧ p.2 = q.2) r.entries.zipIdx r'.entries.zipIdx := by
  have entries := h.entries
  generalize r.entries = es at entries ⊢
  generalize r'.entries = es' at entries ⊢
  generalize 0 = first
  induction entries generalizing first with
  | nil => exact .nil
  | cons he _ ih =>
    rw [List.zipIdx_cons, List.zipIdx_cons]
    exact .cons ⟨he, rfl⟩ (ih _)

theorem callEdges_eq (h : r.MoreTail r') : r'.callEdges = r.callEdges := by
  have entries := h.zipIdx
  unfold callEdges
  generalize r.entries.zipIdx = ps at entries ⊢
  generalize r'.entries.zipIdx = qs at entries ⊢
  induction entries with
  | nil => rfl
  | @cons p q _ _ hpq _ ih =>
    have callees : q.1.body.map Expr.callees = p.1.body.map Expr.callees := by
      have hbody := hpq.1.body
      generalize p.1.body = body at hbody ⊢
      generalize q.1.body = body' at hbody ⊢
      cases hbody with
      | none => rfl
      | some hbody => simp only [Option.map_some, hbody.callees_eq]
    have edge : q.1.body.map (fun body => ((⟨q.2⟩, body.callees) : FuncId × List FuncId)) =
        p.1.body.map fun body => (⟨p.2⟩, body.callees) := by
      have paired := congrArg (Option.map (Prod.mk (⟨q.2⟩ : FuncId))) callees
      rw [← hpq.2] at paired ⊢
      simpa only [Option.map_map, Function.comp_def] using paired
    simp only [List.filterMap_cons, hpq.1.stage_eq, edge, ih]

theorem propagatedFlags_eq (h : r.MoreTail r') : r'.propagatedFlags = r.propagatedFlags := by
  have flags : r'.entries.map (·.flags) = r.entries.map (·.flags) := by
    have entries := h.entries
    generalize r.entries = es at entries ⊢
    generalize r'.entries = es' at entries ⊢
    induction entries with
    | nil => rfl
    | cons he _ ih => simp only [List.map_cons, ih, he.flags_eq]
  rw [Registry.propagatedFlags, Registry.propagatedFlags, h.callEdges_eq, h.length_eq, flags]

theorem propagateFlags (h : r.MoreTail r') : r.propagateFlags.MoreTail r'.propagateFlags where
  entries := by
    simp only [Registry.propagateFlags, h.propagatedFlags_eq, h.callEdges_eq]
    rw [List.forall₂_map_left_iff, List.forall₂_map_right_iff]
    refine h.zipIdx.imp fun p q hpq => ⟨?_, ?_⟩
    · rw [hpq.1.same, hpq.2]
    · dsimp only
      rw [hpq.2]
      have hbody := hpq.1.body
      generalize p.1.body = body at hbody ⊢
      generalize q.1.body = body' at hbody ⊢
      cases hbody with
      | none => split <;> exact .none
      | some hbody =>
        split
        · exact .some (hbody.refreshCalls _)
        · exact .some hbody

end Registry.MoreTail

namespace Compile

theorem finishFunction_follows (id : FuncId) (scope : Scope) {result result' : Except QueryError Expr}
    (h : Ends Expr.MoreTail result result') :
    tails.Follows (fun _ _ => True) (finishFunction id scope result)
      (finishFunction id scope result') := by
  refine Likeness.Follows.read.bind fun o o' ho => ?_
  cases h with
  | error e =>
    refine (modifyRegistry_follows fun hr => hr.update id fun he => ?_).bind fun _ _ _ => .throw e
    exact ⟨by rw [he.same], he.body⟩
  | ok h =>
    refine modifyRegistry_follows fun hr => hr.update id fun {entry entry'} hentry => ?_
    have body := keepTail_moreTail ho.tail (h.coerce entry.declared entry.span)
    refine ⟨?_, ?_⟩
    · simp only [hentry.declared_eq, hentry.span_eq, body.flags_eq, body.has_eq, body.uses_eq]
      rw [hentry.same]
    · simp only [hentry.declared_eq, hentry.span_eq]
      exact .some body

theorem function_follows {simplify : Expr → Compile Expr} (simplifies : ∀ {e e' : Expr},
    e.MoreTail e' → tails.Follows Expr.MoreTail (simplify e) (simplify e')) (depth : Nat)
    (id : FuncId) :
    tails.Follows (fun _ _ => True) (function simplify depth id) (function simplify depth id) := by
  induction depth generalizing id with
  | zero => exact .of_fault fun o s => ⟨.budget, s, rfl⟩
  | succ depth ih =>
    refine (entryOf_follows id).bind fun entry entry' hentry => ?_
    rw [hentry.stage_eq]
    split
    · exact .pure trivial
    · exact modifyRegistry_follows fun hr => hr.update id fun he =>
        ⟨by rw [he.same], he.body⟩
    · exact .throw _
    · have hbody := hentry.body
      rw [hentry.name_eq, hentry.arity_eq, hentry.firstCall_eq, hentry.scope_eq]
      generalize entry.body = body at hbody ⊢
      generalize entry'.body = body' at hbody ⊢
      cases hbody with
      | none => exact .throw _
      | some hbody =>
        refine (modifyRegistry_follows fun hr => hr.update id fun he => ?_).bind fun _ _ _ => ?_
        · exact ⟨by rw [he.same], .none⟩
        · refine (inScope_follows rfl (hbody.compile_follows ⟨simplifies, ih⟩)).bind fun p q hpq => ?_
          obtain ⟨result, scope⟩ := p
          obtain ⟨result', scope'⟩ := q
          obtain ⟨ends, rfl⟩ := hpq
          exact finishFunction_follows id _ ends

theorem registered_follows (budget : Nat) (id : FuncId) :
    tails.Follows (fun _ _ => True) (registered budget id) (registered budget id) := by
  refine Likeness.Follows.get.bind fun s s' hs => ?_
  rw [hs.registry.length_eq]
  exact function_follows (Expr.simplify_follows budget) _ id

theorem expression_follows (budget : Nat) {e e' : Expr} (h : e.MoreTail e') :
    tails.Follows Expr.MoreTail (expression budget e) (expression budget e') := by
  refine Likeness.Follows.get.bind fun s s' hs => ?_
  rw [hs.registry.length_eq]
  exact h.compile_follows
    ⟨Expr.simplify_follows budget, function_follows (Expr.simplify_follows budget) _⟩

theorem mentioned_follows (budget : Nat) :
    tails.Follows (fun _ _ => True) (mentioned budget) (mentioned budget) := by
  refine Likeness.Follows.get.bind fun s s' hs => ?_
  have entries : List.Forall₂ (fun p q => p.1.MoreTail q.1 ∧ p.2 = q.2)
      (s.registry.entries.zipIdx.filter fun p => !p.1.calls.isEmpty && p.1.defined)
      (s'.registry.entries.zipIdx.filter fun p => !p.1.calls.isEmpty && p.1.defined) := by
    refine List.rel_filter (fun p q hpq => ?_) hs.registry.zipIdx
    simp only [hpq.1.calls_eq, hpq.1.defined_eq]
  have each : ∀ p q : Entry × Nat, p.1.MoreTail q.1 ∧ p.2 = q.2 →
      tails.Follows (fun _ _ => True) (registered budget ⟨p.2⟩) (registered budget ⟨q.2⟩) := by
    intro p q hpq
    rw [hpq.2]
    exact registered_follows budget _
  exact (Likeness.Follows.forM each entries).bind fun _ _ _ =>
    modifyRegistry_follows fun hr => hr.propagateFlags

end Compile

end QueryFunctions
