import QueryFunctions.Proofs.Compile.Substitution

/-! The simplifier keeps the standard. A call is expanded only to a body that is not updating, and
a call of a constant built-in becomes a node of that built-in only after the check of updating
calls. -/
namespace QueryFunctions

variable {d : Standard} {a : Allowance} {o : Options} {s : CompileState}
  {simplify : Expr → Compile Expr} (simplifies : SimplifierKeeps d o simplify) (isOpen : a.Open d)

namespace Allowance

theorem Open.allowed {a : Allowance} (isOpen : a.Open d) :
    (d.annotated → false = true) → a.updates := fun none =>
  isOpen.updates.resolve_left fun demanded => Bool.noConfusion (none demanded)

theorem ofFunction_le_ofBody (id : FuncId) (scope : Scope) :
    ofFunction d id scope ≤ ofBody d (d.isUpdating id) scope :=
  ⟨fun h => h, fun _ => trivial, fun h => h, fun h => h, fun h => h⟩

end Allowance

include simplifies

namespace Closure

theorem substituteBody_makes {b : Allowance} (isOpen : b.Open d) {body new : Expr} (id : VarId)
    (hs : s.Meets d b) (hbody : body.Meets d true (b.inside d s.scope)) (inert : new.Inert d) :
    Compile.Makes d b o s (do
      Compile.deferred (← Compile.attempt (body.substitute simplify ⟨id, new⟩))) := by
  have made : Compile.Makes d b o s (body.substitute simplify ⟨id, new⟩) :=
    Expr.substitute_makes simplifies isOpen inert body s hs hbody
  refine Law.Keeps.bind (Law.Keeps.attempt made) fun result t ht _ hresult => ?_
  exact (Compile.deferred_keeps ht hresult).mono fun e u _ htu he => htu.meets he

theorem propagate_keeps {c : Closure} (unflagged : ¬a.flagged) (hs : s.Meets d a)
    (hc : c.Meets d true (a.inside d s.scope) c.annotations.updating) :
    (compileLaw d a).Keeps o s (c.propagate simplify) fun c' t =>
      c'.annotations = c.annotations ∧ (c.captures = [] → c'.captures = []) ∧
        c'.Meets d true (a.inside d t.scope) c.annotations.updating := by
  unfold propagate
  dsimp only
  split
  · exact Law.Keeps.pure hs ⟨rfl, id, hc⟩
  · obtain ⟨compiled, captures, hbody⟩ := Closure.meets_iff.1 hc
    have hbody := Expr.meets_mono (Allowance.ofClosure_le _ _) c.body hbody
    have inert : ∀ p ∈ c.captures.filter (·.2.isValue), p.2.Inert d := by
      intro p hp
      obtain ⟨mem, value⟩ := List.mem_filter.1 hp
      refine Expr.inert_of_isAtom (captures p mem) ?_
      cases h : p.2 with
      | value v => rfl
      | _ =>
        rw [h] at value
        cases value
    have isOpen := Allowance.open_ofBody d c.annotations.updating c.scope
    have each : ∀ (body : Expr) (p : VarId × Expr) (t : CompileState),
        t.Meets d (.ofBody d c.annotations.updating c.scope) →
        body.Meets d true (.ofBody d c.annotations.updating t.scope) → p.2.Inert d →
        Compile.Makes d (.ofBody d c.annotations.updating c.scope) o t (do
          Compile.deferred (← Compile.attempt (body.substitute simplify ⟨p.1, p.2⟩))) :=
      fun body p t ht hbody inert => substituteBody_makes simplifies isOpen p.1 ht hbody inert
    refine Law.Keeps.bind (Compile.inScope_keeps hs fun t ht same => Law.Keeps.foldlM
      (fun _ _ _ _ h => h) each _ c.body t ht (same ▸ hbody) inert) fun p t ht hst hp => ?_
    refine Law.Keeps.bind (Law.Keeps.ofExcept ht) fun body u hu htu found => ?_
    refine Law.Keeps.bind (Law.Keeps.read hu) fun options w hw huw _ => ?_
    refine Law.Keeps.pure hw ⟨rfl, fun none => by simp [none],
      Closure.meets_iff.2 ⟨compiled, fun q hq => ?_, ?_⟩⟩
    · have carried := hst.trans (htu.trans huw)
      exact carried.meets (captures q (List.mem_filter.1 hq).1)
    · refine Compile.keepTail_meets ?_ _
      exact Expr.meets_mono (Allowance.ofBody_le_ofClosure unflagged _ _) body (hp body found.1)

theorem simplifyWith_makes {c : Closure} (unflagged : ¬a.flagged) (hs : s.Meets d a)
    (hc : c.Meets d true (a.inside d s.scope) c.annotations.updating) :
    (compileLaw d a).Keeps o s (c.simplifyWith simplify) fun e t =>
      (∃ f, e = .value (.func f) ∧ f.Meets d) ∨
        ∃ c', e = .closure c' ∧ (c.captures = [] → c'.captures = []) ∧
          c'.Meets d true (a.inside d t.scope) c'.annotations.updating := by
  unfold simplifyWith
  split
  · exact Law.Keeps.pure hs (.inr ⟨c, rfl, id, hc⟩)
  · refine Law.Keeps.bind (propagate_keeps simplifies unflagged hs hc) fun c' t ht _ hc' => ?_
    rw [← hc'.1] at hc'
    split
    · refine Law.Keeps.bind (Compile.draw_keeps ht (Closure.toItem_meets hc'.2.2 (by simp)))
        fun f u hu _ hf => ?_
      exact Law.Keeps.pure hu (.inl ⟨f, rfl, hf⟩)
    · exact Law.Keeps.pure ht (.inr ⟨c', rfl, hc'.2⟩)

end Closure

namespace Compile

include isOpen

theorem simplifyCall_makes {site : CallSite} {args : List Expr} (hs : s.Meets d a)
    (he : (Expr.call site args).Meets d true (a.inside d s.scope)) :
    Makes d a o s (simplifyCall simplify site args) := by
  refine Law.Keeps.bind (entryOf_keeps hs site.target) fun entry t ht hst hentry => ?_
  have unchanged := hst.meets he
  split
  · rename_i body present
    refine Law.Keeps.bind (Law.Keeps.read ht) fun _ u hu htu same => ?_
    obtain ⟨rfl, rfl⟩ := same
    split
    · rename_i inlinable
      simp only [Entry.inlinable, Bool.and_eq_true, decide_eq_true_eq, Bool.not_eq_true'] at inlinable
      obtain ⟨⟨⟨⟨⟨compiled, -⟩, idle⟩, -⟩, -⟩, -⟩ := inlinable
      have hbody := hentry.2.compiled (by simp [compiled]) body present
      have idle : d.isUpdating site.target = false := hentry.2.updating ▸ idle
      have hbody := Expr.meets_mono (Allowance.ofFunction_le_ofBody _ _) body hbody
      rw [idle] at hbody
      rw [Expr.Meets, listMeets_iff] at unchanged
      refine Law.Keeps.bind (expand_makes simplifies isOpen hu hbody isOpen.allowed
        (fun p hp => unchanged.2.2.2 p.2 (List.of_mem_zip hp).2) _ _) fun e w hw _ he => ?_
      exact Law.Keeps.pure hw (keepTail_meets he _)
    · exact Law.Keeps.pure hu unchanged
  · exact Law.Keeps.pure ht unchanged

omit simplifies isOpen in
theorem foldPartial_makes (site : PartialSite) {target : Expr} {args : List Expr} (hs : s.Meets d a) :
    target.Meets d true (a.inside d s.scope) →
      (∀ e ∈ args, e.Meets d true (a.inside d s.scope)) →
      Makes d a o s (match target, Expr.values? args with
        | .value (.func item), some supplied => do
          return .value (.func
            (← draw (PartialApplication.make item supplied site.holes site.span)))
        | _, _ => return .partialApply site target args) := by
  intro htarget hargs
  split
  · rename_i item supplied found
    have hitem := Value.meets_func.1 (Expr.meets_value.1 htarget)
    have hsupplied := Expr.meets_of_values? hargs found
    refine Law.Keeps.bind (draw_keeps hs (PartialApplication.make_meets hitem hsupplied))
      fun f t ht _ hf => Law.Keeps.pure ht ?_
    exact Expr.meets_value.2 (Value.meets_func.2 hf)
  · refine Law.Keeps.pure hs ?_
    rw [Expr.Meets, listMeets_iff]
    exact ⟨htarget, hargs⟩

omit simplifies isOpen in
theorem simplifyPartial_makes {site : PartialSite} {target : Expr} {args : List Expr}
    (hs : s.Meets d a) (he : (Expr.partialApply site target args).Meets d true (a.inside d s.scope)) :
    Makes d a o s (simplifyPartial site target args) := by
  rw [Expr.Meets, listMeets_iff] at he
  unfold simplifyPartial
  dsimp only
  split
  · exact foldPartial_makes site hs he.1 he.2
  · rename_i type _
    split
    · refine Law.Keeps.bind ?_ fun _ u _ _ (none : False) => none.elim
      exact Law.Keeps.throw hs
    · refine Law.Keeps.bind (ofFaulty_keeps hs) fun left t ht _ same => ?_
      obtain ⟨-, rfl⟩ := same
      exact foldPartial_makes { site with type := some left } ht he.1 he.2

omit simplifies isOpen in
theorem checkCallee_keeps (unmixed : d.annotated → o.mixedUpdates = false) (hs : s.Meets d a)
    (site : DynamicSite) (callee : Expr) (arity : Nat) :
    (compileLaw d a).Keeps o s (checkCallee site callee arity) fun _ t => t = s ∧
      ∀ type, callee.inferredType.funcType? = some type → d.annotated →
        type.updating = true → site.updating = true := by
  unfold checkCallee
  split
  · rename_i untyped
    exact Law.Keeps.pure hs ⟨rfl, fun type typed => by rw [untyped] at typed; cases typed⟩
  · rename_i type typed
    dsimp only
    split
    · refine Law.Keeps.bind ?_ fun _ u _ _ (none : False) => none.elim
      exact Law.Keeps.throw hs
    · refine Law.Keeps.bind (Law.Keeps.read hs) fun _ t _ _ same => ?_
      obtain ⟨rfl, rfl⟩ := same
      split
      · split
        · refine Law.Keeps.bind ?_ fun _ u _ _ (none : False) => none.elim
          exact Law.Keeps.throw hs
        · rename_i allowed
          split
          · exact Law.Keeps.throw hs
          · refine Law.Keeps.pure hs ⟨rfl, fun type' typed' _ updating => ?_⟩
            rw [typed] at typed'
            cases typed'
            cases h : site.updating <;> simp_all
      · rename_i mixed
        refine Law.Keeps.pure hs ⟨rfl, fun type' _ annotated _ => ?_⟩
        simp [unmixed annotated] at mixed

theorem expandClosure_makes {site : DynamicSite} {c : Closure} {args : List Expr} (hs : s.Meets d a)
    (idle : c.annotations.updating = false)
    (hc : c.Meets d true (a.inside d s.scope) c.annotations.updating)
    (hargs : ∀ e ∈ args, e.Meets d true (a.inside d s.scope)) :
    Makes d a o s (expandClosure simplify site c args) := by
  rw [idle] at hc
  obtain ⟨-, captures, hbody⟩ := Closure.meets_iff.1 hc
  have hbody := Expr.meets_mono (Allowance.ofClosure_le _ _) c.body hbody
  refine Law.Keeps.bind (expand_makes simplifies isOpen hs hbody isOpen.allowed (fun p hp => ?_) _ _)
    fun e t ht _ he => Law.Keeps.pure ht (keepTail_meets he _)
  rcases List.mem_append.1 hp with arg | capture
  · exact hargs p.2 (List.of_mem_zip arg).2
  · exact captures p capture

theorem simplifyDynamicCall_makes (unmixed : d.annotated → o.mixedUpdates = false)
    {site : DynamicSite} {callee : Expr} {args : List Expr} (hs : s.Meets d a)
    (he : (Expr.dynamicCall site callee args).Meets d true (a.inside d s.scope)) :
    Makes d a o s (simplifyDynamicCall simplify site callee args) := by
  have parts := he
  rw [Expr.Meets, listMeets_iff] at parts
  obtain ⟨updates, hcallee, hargs⟩ := parts
  have closure : ∀ c : Closure, c.Meets d true (a.inside d s.scope) c.annotations.updating →
      Makes d a o s (if c.inlinable o && !site.inlinedFrom.contains c.origin then
        expandClosure simplify site c args
      else return .dynamicCall site callee args) := by
    intro c hc
    split
    · rename_i inlinable
      simp only [Closure.inlinable, Bool.and_eq_true, Bool.not_eq_true'] at inlinable
      obtain ⟨⟨⟨⟨-, idle⟩, -⟩, -⟩, -⟩ := inlinable
      exact expandClosure_makes simplifies isOpen hs idle hc hargs
    · exact Law.Keeps.pure hs he
  refine Law.Keeps.bind (checkCallee_keeps unmixed hs site callee args.length) fun _ t _ _ checked => ?_
  obtain ⟨rfl, checked⟩ := checked
  refine Law.Keeps.bind (Law.Keeps.read hs) fun _ u _ _ same => ?_
  obtain ⟨rfl, rfl⟩ := same
  split
  · rename_i item
    have hitem := FuncItem.meets_iff.1 (Value.meets_func.1 (Expr.meets_value.1 hcallee))
    split
    · rename_i b code
      rw [code, Code.Meets] at hitem
      refine simplifies a isOpen _ u hs ?_
      rw [Expr.Meets, listMeets_iff]
      refine ⟨fun upd => ?_, fun _ => isOpen.draws, hargs⟩
      rcases isOpen.updates with annotated | free
      · exact updates (checked item.type rfl annotated (hitem upd).1)
      · exact free
    · rename_i params captured body scope code
      rw [code, Code.Meets, capturedMeet_iff] at hitem
      split
      · rename_i inlinable
        simp only [inlinesItem, Bool.and_eq_true, Bool.not_eq_true'] at inlinable
        obtain ⟨⟨⟨idle, -⟩, -⟩, -⟩ := inlinable
        have hbody := hitem.2
        rw [show item.annotations.updating = false from idle] at hbody
        refine Law.Keeps.bind (expand_makes simplifies isOpen hs hbody isOpen.allowed
          (fun p hp => ?_) _ _) fun e t ht _ he => Law.Keeps.pure ht (keepTail_meets he _)
        rcases List.mem_append.1 hp with arg | capture
        · exact hargs p.2 (List.of_mem_zip arg).2
        · obtain ⟨q, hq, rfl⟩ := List.mem_map.1 capture
          exact Expr.meets_value.2 (hitem.1 q hq)
      · exact Law.Keeps.pure hs he
  · rename_i c
    rw [Expr.Meets] at hcallee
    exact closure c hcallee
  · rename_i c
    rw [Expr.Meets, if_pos rfl] at hcallee
    exact closure c hcallee.2.2.2
  · exact Law.Keeps.pure hs he

end Compile

namespace Expr

theorem simplifyWith_makes (unmixed : d.annotated → o.mixedUpdates = false) (isOpen : a.Open d)
    {e : Expr} (hs : s.Meets d a) (he : e.Meets d true (a.inside d s.scope)) :
    Compile.Makes d a o s (e.simplifyWith simplify) := by
  cases e with
  | letIn id slot bound body =>
    have parts := he
    rw [Expr.Meets] at parts
    obtain ⟨-, -, hbound, hbody⟩ := parts
    rw [simplifyWith]
    split
    · rename_i atom
      exact substitute_makes simplifies isOpen (inert_of_isAtom hbound atom)
        body s hs hbody
    · split
      · exact Law.Keeps.pure hs hbody
      · exact Law.Keeps.pure hs he
  | branch cond yes no span => exact Law.Keeps.pure hs (foldBranch_meets he)
  | arith op lhs rhs span => exact Law.Keeps.pure hs (foldArith_meets he)
  | compare op lhs rhs span => exact Law.Keeps.pure hs (foldCompare_meets he)
  | seq items => exact Law.Keeps.pure hs (foldSeq_meets he)
  | treat expr type span => exact Law.Keeps.pure hs (foldTreat_meets he)
  | builtin function args span => exact Law.Keeps.pure hs (foldBuiltin_meets he)
  | closure c =>
    rw [Expr.Meets] at he
    refine (Closure.simplifyWith_makes simplifies isOpen.unflagged hs he).mono fun e t _ _ made => ?_
    rcases made with ⟨f, rfl, hf⟩ | ⟨c', rfl, -, hc'⟩
    · exact meets_value.2 (Value.meets_func.2 hf)
    · rwa [Expr.Meets]
  | literal site c =>
    rw [Expr.Meets, if_pos rfl] at he
    refine Law.Keeps.bind (Closure.simplifyWith_makes simplifies isOpen.unflagged hs he.2.2.2)
      fun e t ht _ made => ?_
    refine Law.Keeps.pure ht ?_
    rcases made with ⟨f, rfl, hf⟩ | ⟨c', rfl, none, hc'⟩
    · exact meets_value.2 (Value.meets_func.2 hf)
    · unfold Compile.rewrapLiteral
      rw [Expr.Meets, if_pos rfl]
      exact ⟨he.1, none he.2.1, fun raw => Bool.noConfusion raw, hc'⟩
  | partialApply site target args => exact Compile.simplifyPartial_makes hs he
  | call site args => exact Compile.simplifyCall_makes simplifies isOpen hs he
  | dynamicCall site callee args =>
    exact Compile.simplifyDynamicCall_makes simplifies isOpen unmixed hs he
  | value v => exact Law.Keeps.pure hs he
  | var ref => exact Law.Keeps.pure hs he
  | focus span => exact Law.Keeps.pure hs he
  | error e => exact Law.Keeps.pure hs he

omit simplifies in
theorem simplify_keeps (unmixed : d.annotated → o.mixedUpdates = false) (budget : Nat) :
    SimplifierKeeps d o (Expr.simplify budget) := by
  induction budget with
  | zero => exact fun _ _ _ _ _ _ => Law.Keeps.of_fault rfl
  | succ budget ih => exact fun _ isOpen _ _ hs he => simplifyWith_makes ih unmixed isOpen hs he

end Expr

end QueryFunctions
