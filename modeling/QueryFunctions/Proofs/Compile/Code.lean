import QueryFunctions.Compile.Function
import QueryFunctions.Proofs.Compile.Simplify

/-! Raw code that meets the standard becomes compiled code that does, if the functions that it
calls are compiled by something that keeps the law. -/
namespace QueryFunctions

variable {d : Standard} {o : Options} {s : CompileState} {simplify : Expr → Compile Expr}
  {prepare : FuncId → Compile Unit}

/-- Functions can be prepared in any scope that is open to the compiler. -/
def PrepareKeeps (d : Standard) (o : Options) (prepare : FuncId → Compile Unit) : Prop :=
  ∀ (a : Allowance), a.Open d → ∀ (id : FuncId) (s : CompileState), s.Meets d a →
    (compileLaw d a).Keeps o s (prepare id) fun _ _ => True

theorem Scope.isSome_find?_congr {s t : Scope} (layout : t.layout = s.layout) (id : VarId) :
    (s.find? id).isSome = true → (t.find? id).isSome = true := by
  rw [Scope.isSome_find?_iff, Scope.isSome_find?_iff, layout]
  exact fun h => h

namespace Closure

theorem layout_adaptTo (c : Closure) (target : Entry) :
    (c.adaptTo target).scope.layout = c.scope.layout := by
  unfold adaptTo
  dsimp only
  generalize c.params.zip target.paramVariables = pairs
  generalize c.scope = scope
  induction pairs generalizing scope with
  | nil => rfl
  | cons p pairs ih =>
    rw [List.foldl_cons, ih, Scope.layout_rename, Scope.layout_setDeclared]

theorem layout_refineAll (captures : List (VarId × Expr)) (scope : Scope) :
    (captures.foldl (fun scope (id, e) => scope.refine id e.inferredType) scope).layout =
      scope.layout := by
  induction captures generalizing scope with
  | nil => rfl
  | cons p captures ih => rw [List.foldl_cons, ih, Scope.layout_refine]

theorem compileAs_eq (c : Closure) (target : Entry) :
    c.compileAs target simplify prepare = (c.adaptTo target).compileParts
      (compileSupplies simplify prepare c.captures) (c.body.compileWith simplify prepare) := by
  cases c
  rw [compileAs]

variable {a : Allowance}

theorem compileParts_keeps (unflagged : ¬a.flagged) {c : Closure} {updating : Bool}
    {supplies : Compile (List (VarId × Expr))} {body : Compile Expr}
    (hsupplies : (compileLaw d a).Keeps o s supplies fun es t =>
      (c.captures = [] → es = []) ∧ suppliesMeet d true (a.inside d t.scope) es)
    (hbody : ∀ (scope : Scope) (t : CompileState), scope.layout = c.scope.layout →
      t.Meets d (.ofBody d updating scope) → t.scope = scope →
      Compile.Makes d (.ofBody d updating scope) o t body) :
    (compileLaw d a).Keeps o s (c.compileParts supplies body) fun c' t =>
      c'.annotations = c.annotations ∧ (c.captures = [] → c'.captures = []) ∧
        c'.Meets d true (a.inside d t.scope) updating := by
  refine Law.Keeps.bind hsupplies fun captures t ht _ hcaptures => ?_
  refine Law.Keeps.bind (Compile.inScope_keeps ht fun u hu same =>
    hbody _ u (layout_refineAll captures c.scope) hu same) fun p u hu htu hp => ?_
  have coerced : ∀ e, p.1.map (·.coerce c.declared c.span) = .ok e →
      e.Meets d true (.ofBody d updating p.2) := by
    intro e made
    cases h : p.1 with
    | error err => simp [h, Except.map] at made
    | ok e' =>
      simp only [h, Except.map, Except.ok.injEq] at made
      subst made
      exact Expr.coerce_meets (hp e' h) c.declared c.span
  refine Law.Keeps.bind (Compile.deferred_keeps hu coerced) fun e v hv huv he => ?_
  refine Law.Keeps.bind (Law.Keeps.read hv) fun options w hw hvw _ => ?_
  refine Law.Keeps.pure hw ⟨rfl, hcaptures.1, ?_⟩
  rw [Closure.Meets]
  refine ⟨rfl, (htu.trans (huv.trans hvw)).suppliesMeet hcaptures.2, Compile.keepTail_meets ?_ _⟩
  exact Expr.meets_mono (Allowance.ofBody_le_ofClosure unflagged _ _) e he

end Closure

section

variable (simplifies : SimplifierKeeps d o simplify) (prepares : PrepareKeeps d o prepare)

include simplifies

theorem Compile.compileCall_makes {a : Allowance} (isOpen : a.Open d) {site : CallSite}
    {args : List Expr} (hs : s.Meets d a) (mentioned : d.mentioned site.target)
    (updates : d.isUpdating site.target = true → a.updates)
    (hargs : listMeets d true (a.inside d s.scope) args) :
    Compile.Makes d a o s (Compile.compileCall simplify site args) := by
  refine Law.Keeps.bind (Compile.entryOf_keeps hs site.target) fun entry t ht hst hentry => ?_
  dsimp only
  split
  · refine Law.Keeps.bind ?_ fun _ u _ _ (none : False) => none.elim
    exact Law.Keeps.throw ht
  · refine simplifies a isOpen _ t ht ?_
    rw [Expr.Meets]
    refine ⟨mentioned, fun upd => ⟨updates upd, fun _ => ?_⟩, fun _ => ⟨isOpen.draws, fun flagged =>
      (isOpen.unflagged flagged).elim⟩, hst.listMeets hargs⟩
    have annotated : entry.annotations.updating = true := hentry.2.updating.trans upd
    simp [annotated]

omit simplifies

mutual
theorem Expr.compileWith_makes (simplifies : SimplifierKeeps d o simplify)
    (prepares : PrepareKeeps d o prepare) : {a : Allowance} → a.Open d → (e : Expr) → (s : CompileState) →
    s.Meets d a → e.Meets d false (a.inside d s.scope) →
    Compile.Makes d a o s (e.compileWith simplify prepare)
  | _, _, .value v, _, hs, he => by
    rw [Expr.Meets] at he
    exact Law.Keeps.pure hs (Expr.meets_value.2 he)
  | _, _, .focus _, _, hs, _ => Law.Keeps.pure hs (by simp only [Expr.Meets])
  | _, _, .error _, _, hs, _ => Law.Keeps.pure hs (by simp only [Expr.Meets])
  | _, _, .var ref, s, hs, _ => by
    refine Law.Keeps.bind (Law.Keeps.get hs) fun _ t ht _ _ => ?_
    split
    · exact Law.Keeps.pure ht (by simp only [Expr.Meets])
    · exact Law.Keeps.pure ht (by simp only [Expr.Meets])
  | a, isOpen, .letIn id slot value body, s, hs, he => by
    rw [Expr.Meets] at he
    obtain ⟨hslot, hid, hvalue, hbody⟩ := he
    refine Law.Keeps.bind (Expr.compileWith_makes simplifies prepares isOpen value s hs hvalue)
      fun value' t ht hst hvalue' => ?_
    refine Law.Keeps.bind (Compile.modifyScope_keeps ht (Scope.layout_refine _ _ _) rfl)
      fun _ u hu htu _ => ?_
    have hsu := hst.trans htu
    refine Law.Keeps.bind (Expr.compileWith_makes simplifies prepares isOpen body u hu (hsu.meets hbody))
      fun body' w hw huw hbody' => ?_
    refine simplifies a isOpen _ w hw ?_
    rw [Expr.Meets]
    exact ⟨hslot, fun demanded => (hsu.trans huw).scope id (hid demanded),
      (htu.trans huw).meets hvalue', hbody'⟩
  | a, isOpen, .branch cond yes no span, s, hs, he => by
    rw [Expr.Meets] at he
    obtain ⟨hcond, hyes, hno⟩ := he
    refine Law.Keeps.bind (Expr.compileWith_makes simplifies prepares isOpen cond s hs hcond)
      fun cond' t ht hst hcond' => ?_
    refine Law.Keeps.bind (Expr.compileWith_makes simplifies prepares isOpen yes t ht (hst.meets hyes))
      fun yes' u hu htu hyes' => ?_
    refine Law.Keeps.bind
      (Expr.compileWith_makes simplifies prepares isOpen no u hu ((hst.trans htu).meets hno))
      fun no' w hw huw hno' => ?_
    refine simplifies a isOpen _ w hw ?_
    rw [Expr.Meets]
    exact ⟨(htu.trans huw).meets hcond', huw.meets hyes', hno'⟩
  | a, isOpen, .arith op lhs rhs span, s, hs, he => by
    rw [Expr.Meets] at he
    refine Law.Keeps.bind (Expr.compileWith_makes simplifies prepares isOpen lhs s hs he.1)
      fun lhs' t ht hst hlhs' => ?_
    refine Law.Keeps.bind (Expr.compileWith_makes simplifies prepares isOpen rhs t ht (hst.meets he.2))
      fun rhs' u hu htu hrhs' => ?_
    refine simplifies a isOpen _ u hu ?_
    rw [Expr.Meets]
    exact ⟨htu.meets hlhs', hrhs'⟩
  | a, isOpen, .compare op lhs rhs span, s, hs, he => by
    rw [Expr.Meets] at he
    refine Law.Keeps.bind (Expr.compileWith_makes simplifies prepares isOpen lhs s hs he.1)
      fun lhs' t ht hst hlhs' => ?_
    refine Law.Keeps.bind (Expr.compileWith_makes simplifies prepares isOpen rhs t ht (hst.meets he.2))
      fun rhs' u hu htu hrhs' => ?_
    refine simplifies a isOpen _ u hu ?_
    rw [Expr.Meets]
    exact ⟨htu.meets hlhs', hrhs'⟩
  | a, isOpen, .seq items, s, hs, he => by
    rw [Expr.Meets] at he
    refine Law.Keeps.bind (compileList_keeps simplifies prepares isOpen items s hs he)
      fun items' t ht _ hitems' => ?_
    exact simplifies a isOpen _ t ht (by rwa [Expr.Meets])
  | a, isOpen, .treat expr type span, s, hs, he => by
    rw [Expr.Meets] at he
    refine Law.Keeps.bind (Expr.compileWith_makes simplifies prepares isOpen expr s hs he)
      fun expr' t ht _ hexpr' => ?_
    exact simplifies a isOpen _ t ht (by rwa [Expr.Meets])
  | a, isOpen, .builtin function args span, s, hs, he => by
    rw [Expr.Meets] at he
    obtain ⟨hu, hd, hargs⟩ := he
    refine Law.Keeps.bind (compileList_keeps simplifies prepares isOpen args s hs hargs)
      fun args' t ht _ hargs' => ?_
    refine simplifies a isOpen _ t ht ?_
    rw [Expr.Meets]
    exact ⟨hu, hd, hargs'⟩
  | a, isOpen, .closure c, s, hs, he => by
    rw [Expr.Meets] at he
    have raw := (Closure.meets_iff.1 he).1
    unfold Expr.compileWith
    rw [raw, if_neg Bool.false_ne_true]
    refine Law.Keeps.bind (Closure.compileWith_keeps simplifies prepares isOpen c s hs he)
      fun c' t ht _ hc' => ?_
    refine simplifies a isOpen _ t ht ?_
    rw [Expr.Meets, hc'.1]
    exact hc'.2.2
  | a, isOpen, .literal site c, s, hs, he => by
    rw [Expr.Meets, if_neg Bool.false_ne_true] at he
    obtain ⟨mentioned, none, -, hc⟩ := he
    have raw := (Closure.meets_iff.1 hc).1
    unfold Expr.compileWith
    rw [raw, if_neg Bool.false_ne_true]
    refine Law.Keeps.bind (prepares a isOpen site.target s hs) fun _ t ht hst _ => ?_
    refine Law.Keeps.bind (Compile.entryOf_keeps ht site.target) fun entry u hu htu hentry => ?_
    refine Law.Keeps.bind (Closure.compileAs_keeps simplifies prepares isOpen entry c u hu
      ((hst.trans htu).closureMeets hc)) fun c' w hw _ hc' => ?_
    refine simplifies a isOpen _ w hw ?_
    rw [Expr.Meets, if_pos rfl, hc'.1, hentry.2.updating]
    exact ⟨mentioned, hc'.2.1 none, fun raw => Bool.noConfusion raw, hc'.2.2⟩
  | a, isOpen, .partialApply site target args, s, hs, he => by
    rw [Expr.Meets] at he
    refine Law.Keeps.bind (Expr.compileWith_makes simplifies prepares isOpen target s hs he.1)
      fun target' t ht hst htarget' => ?_
    refine Law.Keeps.bind (compileList_keeps simplifies prepares isOpen args t ht (hst.listMeets he.2))
      fun args' u hu htu hargs' => ?_
    refine simplifies a isOpen _ u hu ?_
    rw [Expr.Meets]
    exact ⟨htu.meets htarget', hargs'⟩
  | a, isOpen, .call site args, s, hs, he => by
    rw [Expr.Meets] at he
    obtain ⟨mentioned, updates, -, hargs⟩ := he
    refine Law.Keeps.bind (compileList_keeps simplifies prepares isOpen args s hs hargs)
      fun args' t ht _ hargs' => ?_
    refine Law.Keeps.bind (prepares a isOpen site.target t ht) fun _ u hu htu _ => ?_
    exact Compile.compileCall_makes simplifies isOpen hu mentioned (fun upd => (updates upd).1)
      (htu.listMeets hargs')
  | a, isOpen, .dynamicCall site callee args, s, hs, he => by
    rw [Expr.Meets] at he
    obtain ⟨updates, hcallee, hargs⟩ := he
    refine Law.Keeps.bind (Expr.compileWith_makes simplifies prepares isOpen callee s hs hcallee)
      fun callee' t ht hst hcallee' => ?_
    refine Law.Keeps.bind (compileList_keeps simplifies prepares isOpen args t ht (hst.listMeets hargs))
      fun args' u hu htu hargs' => ?_
    refine simplifies a isOpen _ u hu ?_
    rw [Expr.Meets]
    exact ⟨updates, htu.meets hcallee', hargs'⟩

theorem compileList_keeps (simplifies : SimplifierKeeps d o simplify)
    (prepares : PrepareKeeps d o prepare) : {a : Allowance} →
    a.Open d → (es : List Expr) → (s : CompileState) →
    s.Meets d a → listMeets d false (a.inside d s.scope) es →
    (compileLaw d a).Keeps o s (compileList simplify prepare es) fun es' t =>
      listMeets d true (a.inside d t.scope) es'
  | _, _, [], _, hs, _ => Law.Keeps.pure hs (by simp only [listMeets])
  | _, isOpen, e :: es, s, hs, he => by
    rw [listMeets] at he
    refine Law.Keeps.bind (Expr.compileWith_makes simplifies prepares isOpen e s hs he.1)
      fun e' t ht hst he' => ?_
    refine Law.Keeps.bind (compileList_keeps simplifies prepares isOpen es t ht (hst.listMeets he.2))
      fun es' u hu htu hes' => ?_
    refine Law.Keeps.pure hu ?_
    rw [listMeets]
    exact ⟨htu.meets he', hes'⟩

theorem Closure.compileWith_keeps (simplifies : SimplifierKeeps d o simplify)
    (prepares : PrepareKeeps d o prepare) : {a : Allowance} → a.Open d → {updating : Bool} →
    (c : Closure) → (s : CompileState) → s.Meets d a →
    c.Meets d false (a.inside d s.scope) updating →
    (compileLaw d a).Keeps o s (c.compileWith simplify prepare) fun c' t =>
      c'.annotations = c.annotations ∧ (c.captures = [] → c'.captures = []) ∧
        c'.Meets d true (a.inside d t.scope) updating
  | _, isOpen, updating, ⟨_, _, body, _, _, scope, captures, _, _, _⟩, s, hs, hc => by
    rw [Closure.Meets] at hc
    refine Closure.compileParts_keeps isOpen.unflagged
      (compileSupplies_keeps simplifies prepares isOpen captures s hs hc.2.1)
      fun inner t layout ht same => ?_
    refine Expr.compileWith_makes simplifies prepares (Allowance.open_ofBody d updating inner) body t ht ?_
    rw [same]
    have hbody := Expr.meets_mono (Allowance.ofClosure_le updating scope) body hc.2.2
    exact hbody.mono (Allowance.ofBody_le (Scope.isSome_find?_congr layout))

theorem Closure.compileAs_keeps (simplifies : SimplifierKeeps d o simplify)
    (prepares : PrepareKeeps d o prepare) : {a : Allowance} → a.Open d → {updating : Bool} →
    (target : Entry) → (c : Closure) → (s : CompileState) → s.Meets d a →
    c.Meets d false (a.inside d s.scope) updating →
    (compileLaw d a).Keeps o s (c.compileAs target simplify prepare) fun c' t =>
      c'.annotations = target.annotations ∧ (c.captures = [] → c'.captures = []) ∧
        c'.Meets d true (a.inside d t.scope) updating
  | _, isOpen, updating, target, ⟨_, _, body, _, _, scope, captures, _, _, _⟩, s, hs, hc => by
    rw [Closure.Meets] at hc
    rw [Closure.compileAs_eq]
    refine Closure.compileParts_keeps isOpen.unflagged
      (compileSupplies_keeps simplifies prepares isOpen captures s hs hc.2.1)
      fun inner t layout ht same => ?_
    rw [Closure.layout_adaptTo] at layout
    refine Expr.compileWith_makes simplifies prepares (Allowance.open_ofBody d updating inner) body t ht ?_
    rw [same]
    have hbody := Expr.meets_mono (Allowance.ofClosure_le updating scope) body hc.2.2
    exact hbody.mono (Allowance.ofBody_le (Scope.isSome_find?_congr layout))

theorem compileSupplies_keeps (simplifies : SimplifierKeeps d o simplify)
    (prepares : PrepareKeeps d o prepare) : {a : Allowance} → a.Open d → (es : List (VarId × Expr)) →
    (s : CompileState) → s.Meets d a → suppliesMeet d false (a.inside d s.scope) es →
    (compileLaw d a).Keeps o s (compileSupplies simplify prepare es) fun es' t =>
      (es = [] → es' = []) ∧ suppliesMeet d true (a.inside d t.scope) es'
  | _, _, [], _, hs, _ => Law.Keeps.pure hs ⟨fun _ => rfl, by simp only [suppliesMeet]⟩
  | _, isOpen, (_, e) :: es, s, hs, he => by
    rw [suppliesMeet] at he
    refine Law.Keeps.bind (Expr.compileWith_makes simplifies prepares isOpen e s hs he.1)
      fun e' t ht hst he' => ?_
    refine Law.Keeps.bind (compileSupplies_keeps simplifies prepares isOpen es t ht (hst.suppliesMeet he.2))
      fun es' u hu htu hes' => ?_
    refine Law.Keeps.pure hu ⟨fun none => absurd none (List.cons_ne_nil _ _), ?_⟩
    rw [suppliesMeet]
    exact ⟨htu.meets he', hes'.2⟩
end

end

end QueryFunctions
