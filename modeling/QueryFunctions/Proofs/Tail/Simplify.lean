import QueryFunctions.Compile.Simplify
import QueryFunctions.Proofs.Tail.Folding
import QueryFunctions.Proofs.Tail.Registry

/-! The simplifier on code with more tail calls. It marks the calls of an expanded body if the call that
it replaces is marked, and is the same otherwise; so expressions with more tail calls become
expressions with more tail calls. -/
namespace QueryFunctions

/-- The same state of the compiler, with more tail calls in the functions compiled so far. -/
structure CompileState.MoreTail (s s' : CompileState) : Prop where
  supply : s'.supply = s.supply
  registry : s.registry.MoreTail s'.registry
  scope : s'.scope = s.scope

namespace Compile

/-- How compilation with tail calls is like compilation without. No error is excused. -/
def tails : Likeness Options CompileState where
  settings := Options.MoreTail
  states := CompileState.MoreTail
  excused _ := False

variable {α β : Type} {rel : α → β → Prop}

theorem draw_follows {act : Supplied α} {act' : Supplied β} (h : DrawsAlike rel act act') :
    tails.Follows rel (draw act) (draw act') := by
  intro o o' s s' _ hs result t run _
  unfold draw at run
  split at run
  · rename_i a supply drawn
    cases run
    obtain ⟨b, drawn', hab⟩ := h _ _ _ drawn
    refine ⟨.ok b, { s' with supply }, ?_, .ok hab, { hs with supply := rfl }⟩
    simp only [draw, hs.supply, drawn']
  · cases run

theorem ofFaulty_follows (result : Except Fault α) :
    tails.Follows (· = ·) (ofFaulty result) (ofFaulty result) := by
  cases result with
  | ok a => exact .pure rfl
  | error f => exact .of_fault fun o s => ⟨f, s, rfl⟩

theorem attempt_follows {act : Compile α} {act' : Compile β} (h : tails.Follows rel act act') :
    tails.Follows (Ends rel) (attempt act) (attempt act') :=
  .attempt (fun _ => id) h

theorem modifyScope_follows (f : Scope → Scope) :
    tails.Follows (fun _ _ => True) (modifyScope f) (modifyScope f) :=
  .modify fun _ _ hs => { hs with scope := congrArg f hs.scope }

theorem modifyRegistry_follows {f f' : Registry → Registry}
    (each : ∀ {r r' : Registry}, r.MoreTail r' → (f r).MoreTail (f' r')) :
    tails.Follows (fun _ _ => True) (modifyRegistry f) (modifyRegistry f') :=
  .modify fun _ _ hs => { hs with registry := each hs.registry }

theorem inScope_follows {inner inner' : Scope} (same : inner = inner') {act : Compile α}
    {act' : Compile β} (h : tails.Follows rel act act') :
    tails.Follows (fun p q => Ends rel p.1 q.1 ∧ q.2 = p.2) (inScope inner act)
      (inScope inner' act') := by
  subst same
  intro o o' s s' ho hs result t run _
  rcases ran : act o { s with scope := inner } with ⟨f | ended, u⟩
  · simp only [inScope, ran] at run
    cases run
  · simp only [inScope, ran] at run
    cases run
    obtain ⟨ended', u', run', ends, hu⟩ :=
      h o o' { s with scope := inner } { s' with scope := inner } ho { hs with scope := rfl } _ _ ran
        fun _ _ => id
    simp only [inScope, run']
    exact ⟨_, _, rfl, .ok ⟨ends, hu.scope⟩, { hu with scope := hs.scope }⟩

theorem entryOf_follows (id : FuncId) : tails.Follows Entry.MoreTail (entryOf id) (entryOf id) := by
  refine Likeness.Follows.get.bind fun s s' hs => ?_
  have found := hs.registry.find? id
  generalize s.registry.find? id = e at found ⊢
  generalize s'.registry.find? id = e' at found ⊢
  cases found with
  | some h => exact .pure h
  | none => exact .of_fault fun o s => ⟨_, s, rfl⟩

theorem deferred_follows {result result' : Except QueryError Expr}
    (h : Ends Expr.MoreTail result result') :
    tails.Follows Expr.MoreTail (deferred result) (deferred result') := by
  cases h with
  | ok h => exact .pure h
  | error e => exact .ite Iff.rfl (.throw e) (.pure (.error e))

theorem keepTail_moreTail {tail tail' : Bool} (ht : tail = true → tail' = true) {e e' : Expr}
    (h : e.MoreTail e') : (keepTail tail e).MoreTail (keepTail tail' e') := by
  unfold keepTail
  cases tail with
  | true =>
    rw [if_pos rfl, if_pos (ht rfl)]
    exact h.markTails
  | false =>
    rw [if_neg Bool.false_ne_true]
    split
    · exact h.marked
    · exact h

end Compile

open Compile (tails)

structure Substitution.MoreTail (s s' : Substitution) : Prop where
  id : s'.id = s.id
  new : s.new.MoreTail s'.new

theorem whereUsed_follows {s s' : Substitution} (hs : s.MoreTail s') {e e' : Expr}
    (h : e.MoreTail e') {rewritten rewritten' : Compile Expr}
    (follows : tails.Follows Expr.MoreTail rewritten rewritten') :
    tails.Follows Expr.MoreTail (whereUsed s e rewritten) (whereUsed s' e' rewritten') := by
  unfold whereUsed
  rw [hs.id, h.references_eq]
  exact .ite Iff.rfl follows (.pure h)

abbrev SimplifierFollows (simplify : Expr → Compile Expr) : Prop :=
  ∀ {e e' : Expr}, e.MoreTail e' → tails.Follows Expr.MoreTail (simplify e) (simplify e')

section

variable {simplify : Expr → Compile Expr}

section

variable {s s' : Substitution}

mutual
theorem Expr.MoreTail.substitute (simplifies : SimplifierFollows simplify) (hs : s.MoreTail s') :
    {e e' : Expr} → e.MoreTail e' →
    tails.Follows Expr.MoreTail (e.substitute simplify s) (e'.substitute simplify s')
  | _, _, .value h => .pure (.value h)
  | _, _, .focus span => .pure (.focus span)
  | _, _, .error e => .pure (.error e)
  | _, _, .literal site h => .pure (.literal site h)
  | _, _, .var ref => by
    unfold Expr.substitute
    rw [hs.id]
    refine .pure ?_
    split
    · exact hs.new
    · exact .var ref
  | _, _, .letIn x slot h h' => whereUsed_follows hs (.letIn x slot h h') <|
    (h.substitute simplifies hs).bind fun _ _ hv => (h'.substitute simplifies hs).bind fun _ _ hb =>
      simplifies (.letIn x slot hv hb)
  | _, _, .branch span h h' h'' => whereUsed_follows hs (.branch span h h' h'') <|
    (h.substitute simplifies hs).bind fun _ _ hc => (h'.substitute simplifies hs).bind fun _ _ hy =>
      (h''.substitute simplifies hs).bind fun _ _ hn => simplifies (.branch span hc hy hn)
  | _, _, .arith op span h h' => whereUsed_follows hs (.arith op span h h') <|
    (h.substitute simplifies hs).bind fun _ _ hl => (h'.substitute simplifies hs).bind fun _ _ hr =>
      simplifies (.arith op span hl hr)
  | _, _, .compare op span h h' => whereUsed_follows hs (.compare op span h h') <|
    (h.substitute simplifies hs).bind fun _ _ hl => (h'.substitute simplifies hs).bind fun _ _ hr =>
      simplifies (.compare op span hl hr)
  | _, _, .seq h => whereUsed_follows hs (.seq h) <|
    (h.substitute simplifies hs).bind fun _ _ hes => simplifies (.seq hes)
  | _, _, .treat type span h => whereUsed_follows hs (.treat type span h) <|
    (h.substitute simplifies hs).bind fun _ _ he => simplifies (.treat type span he)
  | _, _, .builtin function span h =>
    whereUsed_follows hs (.builtin function span h) <|
      (h.substitute simplifies hs).bind fun _ _ hes => simplifies (.builtin function span hes)
  | _, _, .closure h => whereUsed_follows hs (.closure h) <|
    (h.substitute simplifies hs).bind fun _ _ hc => simplifies (.closure hc)
  | _, _, .partialApply site h h' => whereUsed_follows hs (.partialApply site h h') <|
    (h.substitute simplifies hs).bind fun _ _ ht => (h'.substitute simplifies hs).bind fun _ _ hes =>
      simplifies (.partialApply site ht hes)
  | _, _, .call hsite h => whereUsed_follows hs (.call hsite h) <|
    (h.substitute simplifies hs).bind fun _ _ hes => simplifies (.call hsite hes)
  | _, _, .dynamicCall hsite h h' =>
    whereUsed_follows hs (.dynamicCall hsite h h') <|
      (h.substitute simplifies hs).bind fun _ _ hf => (h'.substitute simplifies hs).bind fun _ _ hes =>
        simplifies (.dynamicCall hsite hf hes)

theorem ListMoreTail.substitute (simplifies : SimplifierFollows simplify) (hs : s.MoreTail s') :
    {es es' : List Expr} → ListMoreTail es es' →
    tails.Follows ListMoreTail (substituteList simplify s es) (substituteList simplify s' es')
  | _, _, .nil => .pure .nil
  | _, _, .cons h h' => (h.substitute simplifies hs).bind fun _ _ he =>
    (h'.substitute simplifies hs).bind fun _ _ hes => .pure (.cons he hes)

theorem Closure.MoreTail.substitute (simplifies : SimplifierFollows simplify) (hs : s.MoreTail s') :
    {c c' : Closure} → c.MoreTail c' →
    tails.Follows Closure.MoreTail (c.substitute simplify s) (c'.substitute simplify s')
  | _, _, .closure _ _ _ _ _ _ _ _ h h' => (h.substitute simplifies hs).bind fun _ _ hes =>
    .pure (.closure _ _ _ _ _ _ _ _ hes h')

theorem SuppliesMoreTail.substitute (simplifies : SimplifierFollows simplify) (hs : s.MoreTail s') :
    {es es' : List (VarId × Expr)} → SuppliesMoreTail es es' →
    tails.Follows SuppliesMoreTail (substituteSupplies simplify s es)
      (substituteSupplies simplify s' es')
  | _, _, .nil => .pure .nil
  | _, _, .cons id h h' => (h.substitute simplifies hs).bind fun _ _ he =>
    (h'.substitute simplifies hs).bind fun _ _ hes => .pure (.cons id he hes)
end

end

variable (simplifies : SimplifierFollows simplify)

include simplifies

namespace Compile

theorem bindValue_follows (v : Variable) {value value' body body' : Expr}
    (h : value.MoreTail value') (hbody : body.MoreTail body') (span : Span) :
    tails.Follows Expr.MoreTail (bindValue simplify v value body span)
      (bindValue simplify v value' body' span) := by
  have bound : ∀ {e e' : Expr}, e.MoreTail e' → tails.Follows Expr.MoreTail
      (simplify (.letIn v.id v.slot e body)) (simplify (.letIn v.id v.slot e' body')) :=
    fun he => simplifies (.letIn v.id v.slot he hbody)
  unfold bindValue
  split
  · rename_i type _
    rw [h.inferredType_eq]
    exact .ite Iff.rfl (bound h) ((simplifies (.treat type span h)).bind fun _ _ he => bound he)
  · exact bound h

theorem expand_follows (callee : Scope) {body body' : Expr} (h : body.MoreTail body')
    {bindings bindings' : List (VarId × Expr)} (hbindings : SuppliesMoreTail bindings bindings')
    (origins : List Origin) (span : Span) :
    tails.Follows Expr.MoreTail (expand simplify callee body bindings origins span)
      (expand simplify callee body' bindings' origins span) := by
  refine Likeness.Follows.get.bind fun s s' hs => ?_
  rw [hs.scope]
  refine (draw_follows (.refl (fun _ => rfl) _)).bind fun p _ same => ?_
  cases same
  refine (modifyScope_follows _).bind fun _ _ _ => ?_
  refine (draw_follows (h.copy p.2)).bind fun e e' he => ?_
  refine .foldlM (fun e e' b b' he hb => ?_)
    (List.rel_reverse (suppliesMoreTail_iff.1 hbindings)) (he.addOrigins origins)
  obtain ⟨old, value⟩ := b
  obtain ⟨old', value'⟩ := b'
  obtain ⟨rfl, hvalue⟩ := hb
  refine (ofFaulty_follows _).bind fun v _ same => ?_
  cases same
  exact bindValue_follows simplifies v hvalue he span

theorem simplifyCall_follows {site site' : CallSite} (hsite : site.MoreTail site')
    {args args' : List Expr} (h : ListMoreTail args args') :
    tails.Follows Expr.MoreTail (simplifyCall simplify site args)
      (simplifyCall simplify site' args') := by
  unfold simplifyCall
  rw [hsite.target_eq, hsite.span_eq]
  refine (entryOf_follows _).bind fun entry entry' hentry => ?_
  have whole : tails.Follows Expr.MoreTail (pure (.call site args)) (pure (.call site' args')) :=
    .pure (.call hsite h)
  have hbody := hentry.body
  generalize hb : entry.body = body at hbody ⊢
  generalize hb' : entry'.body = body' at hbody ⊢
  cases hbody with
  | none => exact whole
  | some hbody =>
    refine Likeness.Follows.read.bind fun o o' ho => ?_
    refine .ite (by rw [hentry.inlinable_eq ho]) ?_ whole
    rw [hentry.scope_eq, hentry.params_eq]
    refine (expand_follows simplifies _ hbody (h.zip entry.params) [] site.span).bind
      fun e e' he => ?_
    exact .pure (keepTail_moreTail hsite.tail he)

end Compile

namespace Closure.MoreTail

variable {c c' : Closure}

theorem propagate_follows (h : c.MoreTail c') :
    tails.Follows Closure.MoreTail (c.propagate simplify) (c'.propagate simplify) := by
  unfold propagate
  have hcaptures := suppliesMoreTail_iff.1 h.captures
  have constants : List.Forall₂ (fun p q => p.1 = q.1 ∧ p.2.MoreTail q.2)
      (c.captures.filter (·.2.isValue)) (c'.captures.filter (·.2.isValue)) :=
    List.rel_filter (fun _ _ hpq => by simp only [hpq.2.isValue_eq]) hcaptures
  have others : List.Forall₂ (fun p q => p.1 = q.1 ∧ p.2.MoreTail q.2)
      (c.captures.filter (!·.2.isValue)) (c'.captures.filter (!·.2.isValue)) :=
    List.rel_filter (fun _ _ hpq => by simp only [hpq.2.isValue_eq]) hcaptures
  dsimp only
  refine .ite ?_ (.pure h) ?_
  · rw [List.isEmpty_iff, List.isEmpty_iff, ← List.length_eq_zero_iff, ← List.length_eq_zero_iff,
      constants.length_eq]
  · have folded : tails.Follows Expr.MoreTail
        ((c.captures.filter (·.2.isValue)).foldlM (fun body q => do
          Compile.deferred (← Compile.attempt (body.substitute simplify ⟨q.1, q.2⟩))) c.body)
        ((c'.captures.filter (·.2.isValue)).foldlM (fun body q => do
          Compile.deferred (← Compile.attempt (body.substitute simplify ⟨q.1, q.2⟩))) c'.body) := by
      refine .foldlM (fun e e' p q he hpq => ?_) constants h.body
      have replaced : tails.Follows Expr.MoreTail (e.substitute simplify ⟨p.1, p.2⟩)
          (e'.substitute simplify ⟨q.1, q.2⟩) :=
        he.substitute simplifies ⟨hpq.1.symm, hpq.2⟩
      exact (Compile.attempt_follows replaced).bind fun _ _ ends => Compile.deferred_follows ends
    rw [h.scope_eq]
    refine (Compile.inScope_follows rfl folded).bind fun p q hpq => ?_
    obtain ⟨result, scope⟩ := p
    obtain ⟨result', scope'⟩ := q
    obtain ⟨ends, rfl⟩ := hpq
    refine (Likeness.Follows.ofExcept ends).bind fun e e' he => ?_
    refine Likeness.Follows.read.bind fun o o' ho => .pure ?_
    have others := suppliesMoreTail_iff.2 others
    have body := Compile.keepTail_moreTail ho.tail he
    cases h with
    | closure => exact .closure _ _ _ _ _ _ _ _ others body

theorem simplifyWith_follows (h : c.MoreTail c') :
    tails.Follows Expr.MoreTail (c.simplifyWith simplify) (c'.simplifyWith simplify) := by
  unfold simplifyWith
  rw [h.compiled_eq]
  have rest : tails.Follows Expr.MoreTail (do
      let c ← c.propagate simplify
      if c.captures.isEmpty && !c.annotations.updating && !c.body.has .ndt then
        return .value (.func (← Compile.draw (liftSupply (c.toItem []))))
      return .closure c) (do
      let c ← c'.propagate simplify
      if c.captures.isEmpty && !c.annotations.updating && !c.body.has .ndt then
        return .value (.func (← Compile.draw (liftSupply (c.toItem []))))
      return .closure c) := by
    refine (h.propagate_follows simplifies).bind fun c c' hc => ?_
    rw [hc.annotations_eq, hc.body.has_eq, hc.captures_isEmpty_eq]
    refine .ite Iff.rfl ?_ (.pure (.closure hc))
    exact (Compile.draw_follows (hc.toItem .nil)).bind fun _ _ hf => .pure (.value (.func hf))
  exact .ite Iff.rfl (.pure (.closure h)) rest

end Closure.MoreTail

end

theorem Closure.MoreTail.inlinable_eq {c c' : Closure} (h : c.MoreTail c') {o o' : Options}
    (ho : o.MoreTail o') : c'.inlinable o' = c.inlinable o := by
  simp only [Closure.inlinable, h.compiled_eq, h.annotations_eq, h.body.has_eq, h.body.size_eq,
    ho.inlineLimit_eq]

theorem Expr.MoreTail.calleeName_eq {e e' : Expr} (h : e.MoreTail e') (arity : Nat) :
    e'.calleeName arity = e.calleeName arity := by
  cases h with
  | value h =>
    cases h with
    | func h => exact h.looksLike.text_eq
    | int _ | bool _ | str _ | seq _ => rfl
  | literal site h => simp only [calleeName, Closure.arity, h.params_eq]
  | _ => rfl

namespace Compile

theorem rewrapLiteral_moreTail (site : LiteralSite) {e e' : Expr} (h : e.MoreTail e') :
    (rewrapLiteral site e).MoreTail (rewrapLiteral site e') := by
  cases h with
  | closure h => exact .literal site h
  | _ => constructor <;> assumption

theorem foldPartial_follows (site : PartialSite) {target target' : Expr} {args args' : List Expr} :
    target.MoreTail target' → ListMoreTail args args' →
      tails.Follows Expr.MoreTail
        (match target, Expr.values? args with
        | .value (.func item), some supplied => do
          return .value (.func
            (← draw (PartialApplication.make item supplied site.holes site.span)))
        | _, _ => return .partialApply site target args)
        (match target', Expr.values? args' with
        | .value (.func item), some supplied => do
          return .value (.func
            (← draw (PartialApplication.make item supplied site.holes site.span)))
        | _, _ => return .partialApply site target' args') := by
  intro h hargs
  have whole : tails.Follows Expr.MoreTail (pure (.partialApply site target args))
    (pure (.partialApply site target' args')) := .pure (.partialApply site h hargs)
  have constants := Expr.MoreTail.values? hargs
  generalize Expr.values? args = vs at constants ⊢
  generalize Expr.values? args' = ws at constants ⊢
  cases h with
  | value h =>
    cases h with
    | func h =>
      cases constants with
      | none => exact whole
      | some hvs =>
        exact (draw_follows (PartialApplication.make_moreTail h hvs _ _)).bind fun _ _ hf =>
          .pure (.value (.func hf))
    | int _ | bool _ | str _ | seq _ => exact whole
  | _ => exact whole

theorem simplifyPartial_follows (site : PartialSite) {target target' : Expr}
    (h : target.MoreTail target') {args args' : List Expr} (hargs : ListMoreTail args args') :
    tails.Follows Expr.MoreTail (simplifyPartial site target args)
      (simplifyPartial site target' args') := by
  unfold simplifyPartial
  dsimp only
  rw [h.inferredType_eq, hargs.length_eq, h.calleeName_eq]
  split
  · exact foldPartial_follows site h hargs
  · rename_i type _
    refine .ite Iff.rfl ((Likeness.Follows.throw _).bind fun _ _ (none : False) => none.elim) ?_
    refine (ofFaulty_follows _).bind fun left _ same => ?_
    cases same
    exact foldPartial_follows { site with type := some left } h hargs

theorem checkCallee_follows {site site' : DynamicSite} (hsite : site.MoreTail site')
    {callee callee' : Expr} (h : callee.MoreTail callee') (arity : Nat) :
    tails.Follows (fun _ _ => True) (checkCallee site callee arity)
      (checkCallee site' callee' arity) := by
  have refused : ∀ {rest rest' : Unit → Compile Unit} (e : QueryError),
      tails.Follows (fun _ _ => True) (throw e >>= rest) (throw e >>= rest') :=
    fun e => (Likeness.Follows.throw e).bind fun _ _ (none : False) => none.elim
  unfold checkCallee
  rw [h.inferredType_eq, h.calleeName_eq, hsite.span_eq, hsite.updating_eq]
  split
  · exact .pure trivial
  · refine .ite Iff.rfl (refused _) (Likeness.Follows.read.bind fun o o' ho => ?_)
    rw [ho.mixedUpdates_eq]
    refine .ite Iff.rfl (.ite Iff.rfl (refused _) ?_) (.pure trivial)
    exact .ite Iff.rfl (.throw _) (.pure trivial)

theorem inlinesItem_eq {site site' : DynamicSite} (hsite : site.MoreTail site') {f g : FuncItem}
    (h : f.MoreTail g) {body body' : Expr} (hbody : body.MoreTail body') {o o' : Options}
    (ho : o.MoreTail o') : inlinesItem site' g body' o' = inlinesItem site f body o := by
  simp only [inlinesItem, h.looksLike.isUpdating_eq, h.origin_eq, h.looksLike.annotations_eq,
    hsite.inlinedFrom_eq,
    hbody.has_eq, hbody.size_eq, ho.inlineLimit_eq]

section

variable {simplify : Expr → Compile Expr} (simplifies : ∀ {e e' : Expr}, e.MoreTail e' →
  tails.Follows Expr.MoreTail (simplify e) (simplify e'))

include simplifies

theorem expandClosure_follows {site site' : DynamicSite} (hsite : site.MoreTail site')
    {c c' : Closure} (h : c.MoreTail c') {args args' : List Expr} (hargs : ListMoreTail args args') :
    tails.Follows Expr.MoreTail (expandClosure simplify site c args)
      (expandClosure simplify site' c' args') := by
  unfold expandClosure
  rw [h.scope_eq, h.params_eq, h.origin_eq, h.span_eq, hsite.inlinedFrom_eq]
  have bindings := (hargs.zip c.params).append h.captures
  refine (expand_follows simplifies _ h.body bindings _ _).bind fun e e' he => ?_
  exact .pure (keepTail_moreTail hsite.tail he)

theorem simplifyDynamicCall_follows {site site' : DynamicSite} (hsite : site.MoreTail site')
    {callee callee' : Expr} (h : callee.MoreTail callee') {args args' : List Expr}
    (hargs : ListMoreTail args args') :
    tails.Follows Expr.MoreTail (simplifyDynamicCall simplify site callee args)
      (simplifyDynamicCall simplify site' callee' args') := by
  have whole : tails.Follows Expr.MoreTail (pure (.dynamicCall site callee args))
    (pure (.dynamicCall site' callee' args')) := .pure (.dynamicCall hsite h hargs)
  unfold simplifyDynamicCall
  rw [hargs.length_eq]
  refine (checkCallee_follows hsite h args.length).bind fun _ _ _ => ?_
  refine Likeness.Follows.read.bind fun o o' ho => ?_
  have closures : ∀ {c c' : Closure}, c.MoreTail c' → tails.Follows Expr.MoreTail
      (if c.inlinable o && !site.inlinedFrom.contains c.origin then expandClosure simplify site c args
        else return .dynamicCall site callee args)
      (if c'.inlinable o' && !site'.inlinedFrom.contains c'.origin then
        expandClosure simplify site' c' args' else return .dynamicCall site' callee' args') := by
    intro c c' hc
    rw [hc.inlinable_eq ho, hc.origin_eq, hsite.inlinedFrom_eq]
    exact .ite Iff.rfl (expandClosure_follows simplifies hsite hc hargs) whole
  cases h with
  | closure hc => exact closures hc
  | literal _ hc => exact closures hc
  | value h =>
    cases h with
    | func h =>
      cases h with
      | item id origin name type annotations span code =>
        cases code with
        | builtin b =>
          simp only [hsite.span_eq]
          exact simplifies (.builtin b _ hargs)
        | closure params scope hcaptured hbody =>
          have hitem := FuncItem.MoreTail.item id origin name type annotations span
            (.closure params scope hcaptured hbody)
          dsimp only
          rw [inlinesItem_eq hsite hitem hbody ho, hsite.span_eq, hsite.inlinedFrom_eq]
          refine .ite Iff.rfl ?_ whole
          have bindings := (hargs.zip (params.map (·.id))).append hcaptured.supplies
          refine (expand_follows simplifies _ hbody bindings _ _).bind fun e e' he => ?_
          exact .pure (keepTail_moreTail hsite.tail he)
    | int _ | bool _ | str _ | seq _ => exact whole
  | _ => exact whole

end

end Compile

namespace Expr

theorem simplifyWith_follows {simplify : Expr → Compile Expr} (simplifies : ∀ {e e' : Expr},
    e.MoreTail e' → tails.Follows Expr.MoreTail (simplify e) (simplify e')) {e e' : Expr}
    (h : e.MoreTail e') :
    tails.Follows Expr.MoreTail (e.simplifyWith simplify) (e'.simplifyWith simplify) := by
  cases h with
  | @letIn id slot bound bound' body body' h hbody =>
    simp only [simplifyWith, h.isAtom_eq, hbody.references_eq, h.has_eq]
    refine .ite Iff.rfl ?_ (.ite Iff.rfl (.pure hbody) (.pure (.letIn id slot h hbody)))
    have same : (⟨id, bound'⟩ : Substitution).id = (⟨id, bound⟩ : Substitution).id := rfl
    exact hbody.substitute simplifies ⟨same, h⟩
  | branch span h hyes hno => exact .pure (h.foldBranch hyes hno span)
  | arith op span h h' => exact .pure (.foldArith op h h' span)
  | compare op span h h' => exact .pure (.foldCompare op h h' span)
  | seq h => exact .pure (.foldSeq h)
  | treat type span h => exact .pure (h.foldTreat type span)
  | builtin function span h => exact .pure (.foldBuiltin function h span)
  | closure h => exact h.simplifyWith_follows simplifies
  | literal site h =>
    exact (h.simplifyWith_follows simplifies).bind fun _ _ he =>
      .pure (Compile.rewrapLiteral_moreTail site he)
  | partialApply site h hargs => exact Compile.simplifyPartial_follows site h hargs
  | call hsite h => exact Compile.simplifyCall_follows simplifies hsite h
  | dynamicCall hsite h hargs => exact Compile.simplifyDynamicCall_follows simplifies hsite h hargs
  | value h => exact .pure (.value h)
  | var ref => exact .pure (.var ref)
  | focus span => exact .pure (.focus span)
  | error e => exact .pure (.error e)

theorem simplify_follows (budget : Nat) {e e' : Expr} (h : e.MoreTail e') :
    tails.Follows Expr.MoreTail (e.simplify budget) (e'.simplify budget) := by
  induction budget generalizing e e' with
  | zero => exact .of_fault fun o s => ⟨.budget, s, rfl⟩
  | succ budget ih => exact simplifyWith_follows ih h

end Expr

end QueryFunctions
