import QueryFunctions.Proofs.Compile.Code
import QueryFunctions.Proofs.Form.Simplify

/-! Well-formed code is compiled to well-formed code, if the functions that it calls are compiled by
something that keeps the contract. -/
namespace QueryFunctions

open Contract

variable {w : World} {busy : FuncId → Prop} {p : Place} {o : Options} {s : CompileState}
  {simplify : Expr → Compile Expr} {prepare : FuncId → Compile Unit}

def PrepareForms (w : World) (busy : FuncId → Prop) (o : Options)
    (prepare : FuncId → Compile Unit) : Prop :=
  ∀ (reserve : Reserve) (id : FuncId) (s : CompileState), s.Formed w busy reserve →
    s.registry.Mentions id → (formContract w busy reserve).Keeps o s (prepare id) fun _ _ => True

theorem Scope.Serves.of_layout {s t : Scope} {supply : Supply} {params captured : List VarId}
    (h : s.Serves supply params captured) (layout : t.layout = s.layout) (slots : t.slots = s.slots) :
    t.Serves supply params captured where
  sound := h.sound.of_layout layout (congrArg List.length slots)
  known := by
    rw [layout]
    exact h.known
  taken id mem slot here := by
    have taken := h.taken id mem slot (layout ▸ here)
    unfold Scope.Taken at taken ⊢
    rwa [slots]

theorem Place.ofBody_le_of_layout {s t : Scope} {supply supply' : Supply}
    {params captured : List VarId} (layout : t.layout = s.layout)
    (le : supply.nextVar ≤ supply'.nextVar) {outer outer' : VarId → Prop}
    (around : ∀ {id}, outer' id → outer id ∨ supply.nextVar ≤ id.index) :
    { Place.ofBody s params captured supply with outer } ≤
      { Place.ofBody t params captured supply' with outer := outer' } := by
  refine ⟨fun _ mem => layout ▸ mem, le, id, id, fun ⟨x, mem, here⟩ => ⟨x, mem, layout ▸ here⟩, ?_⟩
  rintro id (outer | own)
  · exact (around outer).imp_left .inl
  · exact .inl (.inr (layout ▸ own))

namespace Closure

theorem slots_adaptTo (c : Closure) (target : Entry) :
    (c.adaptTo target).scope.slots = c.scope.slots := by
  unfold adaptTo
  dsimp only
  generalize c.params.zip target.paramVariables = pairs
  generalize c.scope = scope
  induction pairs generalizing scope with
  | nil => rfl
  | cons p pairs ih =>
    rw [List.foldl_cons, ih]
    rfl

theorem serves_adaptTo {c : Closure} {supply : Supply} {params captured : List VarId}
    (serves : c.scope.Serves supply params captured) (target : Entry) :
    (c.adaptTo target).scope.Serves supply params captured :=
  serves.of_layout (c.layout_adaptTo target) (c.slots_adaptTo target)

theorem slots_refineAll (captures : List (VarId × Expr)) (scope : Scope) :
    (captures.foldl (fun scope (id, e) => scope.refine id e.inferredType) scope).slots =
      scope.slots := by
  induction captures generalizing scope with
  | nil => rfl
  | cons p captures ih =>
    rw [List.foldl_cons, ih]
    rfl

/-- While the parts are compiled the scope at hand may grow, and with it what the body has around. -/
theorem compileParts_forms {c : Closure} {supplies : Compile (List (VarId × Expr))}
    {body : Compile Expr} (serves : c.scope.Serves s.supply c.params (c.captures.map Prod.fst))
    (apart : w.apart → (p.within s).Apart c.scope)
    (hsupplies : (formContract w busy p.reserve).Keeps o s supplies fun es t =>
      es.map Prod.fst = c.captures.map Prod.fst ∧ ∀ x ∈ es, x.2.Formed w (p.within t))
    (hbody : ∀ (t : CompileState) (outer : VarId → Prop), t.scope.layout = c.scope.layout →
      s.supply.nextVar ≤ t.supply.nextVar →
      (∀ {id}, outer id → (p.within s).claims id ∨ s.supply.nextVar ≤ id.index) →
      let q := { Place.ofBody t.scope c.params (c.captures.map Prod.fst) t.supply with outer }
      t.Formed w busy q.reserve → Compile.Forms w busy q o t body) :
    (formContract w busy p.reserve).Keeps o s (c.compileParts supplies body) fun c' t =>
      c'.params = c.params ∧ (c.captures = [] → c'.captures = []) ∧ c'.Formed w (p.within t) := by
  refine Keeps.bind hsupplies fun captures t ht hst hcaptures => ?_
  have served := (serves.mono hst.supply).of_layout (layout_refineAll captures c.scope)
    (slots_refineAll captures c.scope)
  refine Keeps.bind (Compile.inScope_forms ht served (ht.drawn p) fun u scope supply hu => ?_)
    fun x u hu htu hx => ?_
  · rw [← scope, ← supply] at hu ⊢
    refine hbody u _ ?_ (supply ▸ hst.supply) (hst.claims p) hu
    rw [scope]
    exact layout_refineAll captures c.scope
  · obtain ⟨same, served, fresh, value, raised⟩ := hx
    have coerced : ∀ e, x.1.map (·.coerce c.declared c.span) = .ok e → e.Formed w
        { Place.ofBody x.2 c.params (c.captures.map Prod.fst) u.supply with outer :=
        (p.within t).claims } := by
      intro e made
      cases h : x.1 with
      | error err => simp [h, Except.map] at made
      | ok e' =>
        simp only [h, Except.map, Except.ok.injEq] at made
        exact made ▸ (value e' h).coerce _ _
    have failed : ∀ err, x.1.map (·.coerce c.declared c.span) = .error err → w.error err := by
      intro err made
      cases h : x.1 with
      | error err' =>
        simp only [h, Except.map, Except.error.injEq] at made
        exact made ▸ raised err' h
      | ok e => simp [h, Except.map] at made
    refine Keeps.bind (Compile.deferred_forms hu coerced failed) fun e v _ _ made => ?_
    obtain ⟨he, rfl⟩ := made
    refine Keeps.bind (Keeps.read hu) fun options v _ _ unchanged => ?_
    obtain ⟨-, rfl⟩ := unchanged
    refine Keeps.pure hu ⟨rfl, fun bare => ?_, .intro ?_ (fun hw => ?_) (fun y mem => ?_) ?_⟩
    · have keys := hcaptures.1
      rw [bare] at keys
      exact List.map_eq_nil_iff.1 keys
    · exact hcaptures.1 ▸ served
    · unfold Place.Apart
      rw [p.claims_within same]
      refine Place.Apart.grown (((apart hw).onto (hst.claims p) serves.sound).grown (fun y mem => .inl ?_)
        (ht.drawn p)) fresh (ht.drawn p)
      exact layout_refineAll captures c.scope ▸ mem
    · exact htu.formed (hcaptures.2 y mem)
    · unfold Closure.placeIn Place.inside
      rw [p.claims_within same]
      dsimp only
      rw [hcaptures.1]
      exact Compile.keepTail_forms he _

end Closure

section

variable (simplifies : SimplifierForms w o simplify) (prepares : PrepareForms w busy o prepare)

theorem Compile.compileRef_forms {ref : VarRef} (hs : s.Formed w busy p.reserve)
    (he : (Expr.var ref).Formed w (p.within s)) : Compile.Forms w busy p o s (compileRef ref) := by
  cases he with
  | var bound mem =>
    refine Keeps.bind (Keeps.get hs) fun _ t ht _ same => ?_
    obtain ⟨rfl, rfl⟩ := same
    split
    · rename_i v found
      exact Keeps.pure ht (.var bound (Scope.mem_layout_of_find? found).2)
    · exact Keeps.pure ht (.var bound mem)

include simplifies

theorem Compile.compileCall_forms {site : CallSite} {args : List Expr}
    (hs : s.Formed w busy p.reserve) (called : w.calls site.target args.length)
    (hargs : ∀ e ∈ args, e.Formed w (p.within s)) :
    Compile.Forms w busy p o s (Compile.compileCall simplify site args) := by
  obtain ⟨entry, found, -, -⟩ := hs.called called
  refine Keeps.bind (Compile.entryOf_forms hs found) fun x t ht _ same => ?_
  obtain ⟨rfl, rfl⟩ := same
  dsimp only
  split
  · exact Keeps.refuse ht (w.common _ rfl)
  · exact simplifies busy p _ t ht (.call called hargs)

omit simplifies

mutual
theorem Expr.compileWith_forms (simplifies : SimplifierForms w o simplify)
    (prepares : PrepareForms w busy o prepare) : (e : Expr) → (p : Place) → (s : CompileState) →
    s.Formed w busy p.reserve → e.Formed w (p.within s) →
    Compile.Forms w busy p o s (e.compileWith simplify prepare)
  | .value _, _, _, hs, .value hv => Keeps.pure hs (.value hv)
  | .focus _, _, _, hs, .focus hp => Keeps.pure hs (.focus hp)
  | .error _, _, _, hs, .error he => Keeps.pure hs (.error he)
  | .var _, _, _, hs, he => Compile.compileRef_forms hs he
  | .letIn id slot value body, p, s, hs, .letIn mem spared hvalue hbody => by
    refine Keeps.bind (Expr.compileWith_forms simplifies prepares value p s hs hvalue)
      fun value' t ht hst hvalue' => ?_
    refine Keeps.bind (Compile.modifyScope_forms ht (Scope.layout_refine _ _ _) rfl)
      fun _ u hu htu _ => ?_
    have hsu := hst.trans htu
    refine Keeps.bind (Expr.compileWith_forms simplifies prepares body (p.opened id) u hu
      (hsu.formed (p := p.opened id) hbody)) fun body' v hv huv hbody' => ?_
    exact simplifies busy p _ v hv (.letIn ((hsu.trans huv).scope _ mem) spared
      ((htu.trans huv).formed hvalue') hbody')
  | .branch cond yes no span, p, s, hs, .branch hcond hyes hno => by
    refine Keeps.bind (Expr.compileWith_forms simplifies prepares cond p s hs hcond)
      fun cond' t ht hst hcond' => ?_
    refine Keeps.bind (Expr.compileWith_forms simplifies prepares yes p t ht (hst.formed hyes))
      fun yes' u hu htu hyes' => ?_
    refine Keeps.bind (Expr.compileWith_forms simplifies prepares no p u hu ((hst.trans htu).formed hno))
      fun no' v hv huv hno' => ?_
    exact simplifies busy p _ v hv
      (.branch ((htu.trans huv).formed hcond') (huv.formed hyes') hno')
  | .arith op lhs rhs span, p, s, hs, .arith hl hr => by
    refine Keeps.bind (Expr.compileWith_forms simplifies prepares lhs p s hs hl) fun lhs' t ht hst hlhs' => ?_
    refine Keeps.bind (Expr.compileWith_forms simplifies prepares rhs p t ht (hst.formed hr))
      fun rhs' u hu htu hrhs' => ?_
    exact simplifies busy p _ u hu (.arith (htu.formed hlhs') hrhs')
  | .compare op lhs rhs span, p, s, hs, .compare hl hr => by
    refine Keeps.bind (Expr.compileWith_forms simplifies prepares lhs p s hs hl) fun lhs' t ht hst hlhs' => ?_
    refine Keeps.bind (Expr.compileWith_forms simplifies prepares rhs p t ht (hst.formed hr))
      fun rhs' u hu htu hrhs' => ?_
    exact simplifies busy p _ u hu (.compare (htu.formed hlhs') hrhs')
  | .seq items, p, s, hs, .seq all => by
    refine Keeps.bind (compileList_forms simplifies prepares items p s hs all) fun items' t ht _ hitems' => ?_
    exact simplifies busy p _ t ht (.seq hitems'.2)
  | .treat expr type span, p, s, hs, .treat inner => by
    refine Keeps.bind (Expr.compileWith_forms simplifies prepares expr p s hs inner)
      fun expr' t ht _ hexpr' => ?_
    exact simplifies busy p _ t ht (.treat hexpr')
  | .builtin function args span, p, s, hs, .builtin all => by
    refine Keeps.bind (compileList_forms simplifies prepares args p s hs all) fun args' t ht _ hargs' => ?_
    exact simplifies busy p _ t ht (.builtin hargs'.2)
  | .closure c, p, s, hs, .closure hc => by
    unfold Expr.compileWith
    split
    · exact Keeps.pure hs (.closure hc)
    · refine Keeps.bind (Closure.compileWith_forms simplifies prepares c p s hs hc) fun c' t ht _ hc' => ?_
      exact simplifies busy p _ t ht (.closure hc'.2.2)
  | .literal site c, p, s, hs, .literal called bare hc => by
    unfold Expr.compileWith
    split
    · exact Keeps.pure hs (.literal called bare hc)
    · refine Keeps.bind (prepares p.reserve site.target s hs (hs.callable called))
        fun _ t ht hst _ => ?_
      obtain ⟨entry, found, -, -⟩ := ht.called called
      refine Keeps.bind (Compile.entryOf_forms ht found) fun x u hu _ same => ?_
      obtain ⟨rfl, rfl⟩ := same
      refine Keeps.bind (Closure.compileAs_forms simplifies prepares x c p u hu (hc.mono (hst.within_le p)))
        fun c' v hv _ hc' => ?_
      exact simplifies busy p _ v hv (.literal (hc'.1 ▸ called) (hc'.2.1 bare) hc'.2.2)
  | .partialApply site target args, p, s, hs, .partialApply holes htarget hargs => by
    refine Keeps.bind (Expr.compileWith_forms simplifies prepares target p s hs htarget)
      fun target' t ht hst htarget' => ?_
    refine Keeps.bind (compileList_forms simplifies prepares args p t ht (hst.all_formed hargs))
      fun args' u hu htu hargs' => ?_
    exact simplifies busy p _ u hu
      (.partialApply (hargs'.1 ▸ holes) (htu.formed htarget') hargs'.2)
  | .call site args, p, s, hs, .call called hargs => by
    refine Keeps.bind (compileList_forms simplifies prepares args p s hs hargs) fun args' t ht _ hargs' => ?_
    refine Keeps.bind (prepares p.reserve site.target t ht (ht.callable called))
      fun _ u hu htu _ => ?_
    exact Compile.compileCall_forms simplifies hu (hargs'.1 ▸ called) (htu.all_formed hargs'.2)
  | .dynamicCall site callee args, p, s, hs, .dynamicCall hcallee hargs => by
    refine Keeps.bind (Expr.compileWith_forms simplifies prepares callee p s hs hcallee)
      fun callee' t ht hst hcallee' => ?_
    refine Keeps.bind (compileList_forms simplifies prepares args p t ht (hst.all_formed hargs))
      fun args' u hu htu hargs' => ?_
    exact simplifies busy p _ u hu (.dynamicCall (htu.formed hcallee') hargs'.2)

theorem compileList_forms (simplifies : SimplifierForms w o simplify)
    (prepares : PrepareForms w busy o prepare) : (es : List Expr) → (p : Place) → (s : CompileState) →
    s.Formed w busy p.reserve → (∀ e ∈ es, e.Formed w (p.within s)) →
    (formContract w busy p.reserve).Keeps o s (compileList simplify prepare es) fun es' t =>
      es'.length = es.length ∧ ∀ e ∈ es', e.Formed w (p.within t)
  | [], _, _, hs, _ => Keeps.pure hs ⟨rfl, by simp⟩
  | e :: es, p, s, hs, all => by
    refine Keeps.bind (Expr.compileWith_forms simplifies prepares e p s hs (all e (by simp)))
      fun e' t ht hst he' => ?_
    refine Keeps.bind (compileList_forms simplifies prepares es p t ht
      (hst.all_formed fun x mem => all x (by simp [mem]))) fun es' u hu htu hes' => ?_
    exact Keeps.pure hu ⟨by simp [hes'.1], List.forall_mem_cons.2 ⟨htu.formed he', hes'.2⟩⟩

theorem Closure.compileWith_forms (simplifies : SimplifierForms w o simplify)
    (prepares : PrepareForms w busy o prepare) : (c : Closure) → (p : Place) → (s : CompileState) →
    s.Formed w busy p.reserve → c.Formed w (p.within s) →
    (formContract w busy p.reserve).Keeps o s (c.compileWith simplify prepare) fun c' t =>
      c'.params = c.params ∧ (c.captures = [] → c'.captures = []) ∧ c'.Formed w (p.within t)
  | ⟨_, _, body, _, _, _, captures, _, _, _⟩, p, s, hs, .intro serves apart hcaptures hbody => by
    refine Closure.compileParts_forms serves apart
      (compileSupplies_forms simplifies prepares captures p s hs hcaptures)
      fun t outer layout le around ht => ?_
    exact Expr.compileWith_forms simplifies prepares body _ t ht
      (hbody.mono (Place.ofBody_le_of_layout layout le around))

theorem Closure.compileAs_forms (simplifies : SimplifierForms w o simplify)
    (prepares : PrepareForms w busy o prepare) : (target : Entry) → (c : Closure) → (p : Place) →
    (s : CompileState) → s.Formed w busy p.reserve → c.Formed w (p.within s) →
    (formContract w busy p.reserve).Keeps o s (c.compileAs target simplify prepare) fun c' t =>
      c'.params = c.params ∧ (c.captures = [] → c'.captures = []) ∧ c'.Formed w (p.within t)
  | target, ⟨_, _, body, _, _, _, captures, _, _, _⟩, p, s, hs, .intro serves apart hcaptures hbody => by
    rw [Closure.compileAs_eq]
    have adapted := Closure.serves_adaptTo serves target
    refine Closure.compileParts_forms adapted (fun hw => ?_)
      (compileSupplies_forms simplifies prepares captures p s hs hcaptures)
      fun t outer layout le around ht => ?_
    · unfold Place.Apart
      rw [Closure.layout_adaptTo]
      exact apart hw
    · rw [Closure.layout_adaptTo] at layout
      exact Expr.compileWith_forms simplifies prepares body _ t ht
        (hbody.mono (Place.ofBody_le_of_layout layout le around))

theorem compileSupplies_forms (simplifies : SimplifierForms w o simplify)
    (prepares : PrepareForms w busy o prepare) : (es : List (VarId × Expr)) → (p : Place) →
    (s : CompileState) →
    s.Formed w busy p.reserve → (∀ x ∈ es, x.2.Formed w (p.within s)) →
    (formContract w busy p.reserve).Keeps o s (compileSupplies simplify prepare es) fun es' t =>
      es'.map Prod.fst = es.map Prod.fst ∧ ∀ x ∈ es', x.2.Formed w (p.within t)
  | [], _, _, hs, _ => Keeps.pure hs ⟨rfl, by simp⟩
  | (id, e) :: es, p, s, hs, all => by
    refine Keeps.bind (Expr.compileWith_forms simplifies prepares e p s hs (all (id, e) (by simp)))
      fun e' t ht hst he' => ?_
    refine Keeps.bind (compileSupplies_forms simplifies prepares es p t ht fun x mem =>
      hst.formed (all x (by simp [mem]))) fun es' u hu htu hes' => ?_
    exact Keeps.pure hu ⟨by simp [hes'.1], List.forall_mem_cons.2 ⟨htu.formed he', hes'.2⟩⟩
end

end

end QueryFunctions
