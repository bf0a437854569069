import QueryFunctions.Proofs.Form.Expansion
import QueryFunctions.Proofs.Form.Items

/-! The simplifier makes well-formed code from well-formed code. A call is expanded only to a body that
does not ask for the focus, and only with as many arguments as the function has parameters. -/
namespace QueryFunctions

open Contract

variable {w : World} {busy : FuncId → Prop} {p : Place} {o : Options} {s : CompileState}
  {simplify : Expr → Compile Expr} (simplifies : SimplifierForms w o simplify)

include simplifies

namespace Closure

theorem substituteBody_forms {body new : Expr} {id : VarId} (hs : s.Formed w busy p.reserve)
    (hnew : new.Formed w (p.within s)) (hbody : body.Formed w ((p.within s).opened id)) :
    Compile.Forms w busy p o s (do
      Compile.deferred (← Compile.attempt (body.substitute simplify ⟨id, new⟩))) := by
  have made : Compile.Forms w busy p o s (body.substitute simplify ⟨id, new⟩) :=
    Expr.substitute_forms simplifies body p s hs hnew hbody
  refine Keeps.bind (Keeps.attempt made) fun result t ht _ hresult => ?_
  refine (Compile.deferred_forms ht hresult.1 hresult.2).mono fun e u _ _ he => ?_
  exact he.2 ▸ he.1

theorem substituteAll_forms : (constants : List (VarId × Expr)) → (body : Expr) →
    (s : CompileState) → s.Formed w busy p.reserve → (∀ x ∈ constants, x.2.Formed w (p.within s)) →
    body.Formed w ((p.under (constants.map Prod.fst)).within s) →
    Compile.Forms w busy p o s (constants.foldlM (fun body (id, new) => do
      Compile.deferred (← Compile.attempt (body.substitute simplify ⟨id, new⟩))) body)
  | [], body, s, hs, _, hbody => Keeps.pure hs (hbody.mono (Place.under_nil_le (p.within s)))
  | (id, new) :: constants, body, s, hs, all, hbody => by
    have hnew := all (id, new) List.mem_cons_self
    let rest := constants.map Prod.fst
    have made : Compile.Forms w busy (p.under rest) o s (do
        Compile.deferred (← Compile.attempt (body.substitute simplify ⟨id, new⟩))) :=
      substituteBody_forms simplifies hs (hnew.mono (Place.le_under (p.within s) rest))
        (hbody.mono (Place.under_cons_le (p.within s) rest id))
    rw [List.foldlM_cons]
    refine Keeps.bind made fun body' t ht hst hbody' => ?_
    exact substituteAll_forms constants body' t ht
      (fun x mem => hst.formed (all x (List.mem_cons_of_mem _ mem))) hbody'

theorem propagate_forms {c : Closure} (hs : s.Formed w busy p.reserve)
    (hc : c.Formed w (p.within s)) :
    (formContract w busy p.reserve).Keeps o s (c.propagate simplify) fun c' t =>
      c'.params = c.params ∧ (c.captures = [] → c'.captures = []) ∧ c'.Formed w (p.within t) := by
  unfold propagate
  dsimp only
  split
  · exact Keeps.pure hs ⟨rfl, id, hc⟩
  · cases hc with
    | intro serves apart hcaptures hbody =>
      -- Constants need no variable of the body any more; the others stay captured.
      let left := (c.captures.filter (!·.2.isValue)).map Prod.fst
      let constants := c.captures.filter (·.2.isValue)
      have part : ∀ id ∈ c.captures.map Prod.fst, id ∈ constants.map Prod.fst ∨ id ∈ left := by
        intro id mem
        obtain ⟨x, among, rfl⟩ := List.mem_map.1 mem
        cases constant : x.2.isValue with
        | true => exact .inl (List.mem_map_of_mem (List.mem_filter.2 ⟨among, constant⟩))
        | false => exact .inr (List.mem_map_of_mem (List.mem_filter.2 ⟨among, by simp [constant]⟩))
      have serves' : c.scope.Serves s.supply c.params left := by
        refine ⟨serves.sound, fun id mem => serves.known id (mem.imp_right fun mem => ?_), serves.taken⟩
        obtain ⟨x, among, rfl⟩ := List.mem_map.1 mem
        exact List.mem_map_of_mem (List.mem_filter.1 among).1
      have values : ∀ x ∈ constants, ∀ q : Place, x.2.Formed w q := by
        intro x mem q
        obtain ⟨among, constant⟩ := List.mem_filter.1 mem
        have hx := hcaptures x among
        generalize x.2 = e at constant hx
        cases hx with
        | value hv => exact .value hv
        | _ => cases constant
      let place (scope : Scope) (supply : Supply) : Place :=
        { Place.ofBody scope c.params left supply with outer := (p.within s).claims }
      have hbody' : c.body.Formed w ((place c.scope s.supply).under (constants.map Prod.fst)) := by
        refine hbody.mono ⟨.refl _, Nat.le_refl _, fun {id} bound => ?_, fun h => h, fun h => h, .inl⟩
        rcases bound with param | captured
        · exact .inr (.inl param)
        · exact (part id captured).imp_right .inr
      refine Keeps.bind (Compile.inScope_forms hs serves' (hs.drawn p) fun t scope supply ht =>
        substituteAll_forms simplifies (p := place c.scope s.supply) constants c.body t ht
          (fun x mem => values x mem _) ?_) fun x t ht hst hx => ?_
      · unfold Place.within
        rw [scope, supply]
        exact hbody'
      · obtain ⟨same, served, fresh, value, raised⟩ := hx
        refine Keeps.bind (Keeps.ofExcept ht raised) fun body u hu htu found => ?_
        obtain ⟨made, rfl⟩ := found
        refine Keeps.bind (Keeps.read hu) fun options v hv huv unchanged => ?_
        obtain ⟨-, rfl⟩ := unchanged
        refine Keeps.pure hv ⟨rfl, fun bare => by simp [bare],
          .intro served (fun hw => ?_) (fun x mem => ?_) ?_⟩
        · unfold Place.Apart
          rw [p.claims_within same]
          exact (apart hw).grown fresh (hs.drawn p)
        · exact hst.formed (hcaptures x (List.mem_filter.1 mem).1)
        · unfold Closure.placeIn Place.inside
          rw [p.claims_within same]
          exact Compile.keepTail_forms (value body made) _

theorem simplifyWith_forms {c : Closure} (hs : s.Formed w busy p.reserve)
    (hc : c.Formed w (p.within s)) :
    (formContract w busy p.reserve).Keeps o s (c.simplifyWith simplify) fun e t =>
      (∃ f, e = .value (.func f) ∧ f.Formed w) ∨
        ∃ c', e = .closure c' ∧ c'.params = c.params ∧ (c.captures = [] → c'.captures = []) ∧
          c'.Formed w (p.within t) := by
  unfold simplifyWith
  split
  · exact Keeps.pure hs (.inr ⟨c, rfl, rfl, id, hc⟩)
  · refine Keeps.bind (propagate_forms simplifies hs hc) fun c' t ht _ hc' => ?_
    split
    · rename_i bare
      simp only [Bool.and_eq_true, List.isEmpty_iff] at bare
      have keys : ([] : List (Variable × Value)).map (·.1.id) = c'.captures.map Prod.fst := by
        simp [bare.1.1]
      have item := hc'.2.2.toItem keys (by simp) (by simp) t.supply
      refine Keeps.bind (Compile.draw_forms ht (Gives.liftSupply (Nat.le_refl _)))
        fun f u hu _ drawn => Keeps.pure hu (.inl ⟨f, rfl, ?_⟩)
      rw [← congrArg Prod.fst drawn.1] at item
      exact item
    · exact Keeps.pure ht (.inr ⟨c', rfl, hc'⟩)

end Closure

namespace Compile

theorem simplifyCall_forms {site : CallSite} {args : List Expr} (hs : s.Formed w busy p.reserve)
    (he : (Expr.call site args).Formed w (p.within s)) :
    Forms w busy p o s (simplifyCall simplify site args) := by
  have whole := he
  cases he with
  | call called hargs =>
    obtain ⟨entry, found, arity, -⟩ := hs.called called
    have hentry := hs.functions _ _ found
    refine Keeps.bind (entryOf_forms hs found) fun x t ht _ same => ?_
    obtain ⟨rfl, rfl⟩ := same
    split
    · rename_i body present
      refine Keeps.bind (Keeps.read ht) fun _ u hu _ same => ?_
      obtain ⟨rfl, rfl⟩ := same
      split
      · rename_i inlinable
        simp only [Entry.inlinable, Bool.and_eq_true, decide_eq_true_eq, Bool.not_eq_true']
          at inlinable
        obtain ⟨⟨⟨⟨⟨compiled, -⟩, -⟩, -⟩, blind⟩, -⟩ := inlinable
        have lengths : x.params.length = args.length := hentry.arity.trans arity
        have keys : (x.params.zip args).map Prod.fst = x.params := List.map_fst_zip (Nat.le_of_eq lengths)
        have hbody : body.Formed w { x.place u.supply with focus := False } := by
          refine (hentry.body body present).mono (Place.le_refocus fun flagged => ?_)
          exact Bool.noConfusion (blind.symm.trans (flagged compiled))
        refine Keeps.bind (expand_forms simplifies hu (hentry.scope body present) hbody
          (fun y mem => .inl (List.of_mem_zip mem).1) (fun id mem => ?_)
          (fun y mem => hargs y.2 (List.of_mem_zip mem).2) _ _) fun e v hv _ he => ?_
        · rw [keys]
          exact mem.resolve_right List.not_mem_nil
        · exact Keeps.pure hv (keepTail_forms he _)
      · exact Keeps.pure hu whole
    · exact Keeps.pure ht whole

omit simplifies in
theorem foldPartial_forms (site : PartialSite) {target : Expr} {args : List Expr}
    (hs : s.Formed w busy p.reserve) :
    (Expr.partialApply site target args).Formed w (p.within s) →
      (∀ item, target = .value (.func item) → w.exact → ∀ hole ∈ site.holes, hole < item.arity) →
      Forms w busy p o s (match target, Expr.values? args with
        | .value (.func item), some supplied => do
          return .value (.func
            (← draw (PartialApplication.make item supplied site.holes site.span)))
        | _, _ => return .partialApply site target args) := by
  intro whole inside
  have parts := whole
  cases parts with
  | partialApply holes htarget hargs =>
    split
    · rename_i item supplied found
      have hitem : item.Formed w := by
        cases htarget with
        | value hv =>
          cases hv with
          | func hf => exact hf
      refine Keeps.bind (draw_forms hs (PartialApplication.make_forms hitem
        (Expr.formed_of_values? hargs found) (inside item rfl) _)) fun f t ht _ drawn => ?_
      exact Keeps.pure ht (.value (.func drawn.1))
    · exact Keeps.pure hs whole

omit simplifies in
theorem simplifyPartial_forms {site : PartialSite} {target : Expr} {args : List Expr}
    (hs : s.Formed w busy p.reserve) (he : (Expr.partialApply site target args).Formed w (p.within s)) :
    Forms w busy p o s (simplifyPartial site target args) := by
  unfold simplifyPartial
  dsimp only
  split
  · rename_i untyped
    refine foldPartial_forms site hs he fun item same => ?_
    rw [same] at untyped
    cases untyped
  · rename_i type typed
    split
    · exact Keeps.refuse hs (w.common _ rfl)
    · rename_i arity
      cases he with
      | partialApply holes htarget hargs =>
        have arity : type.arity = args.length + site.holes.length := not_not.1 arity
        have inside : w.exact → ∀ hole ∈ site.holes, hole < type.arity := arity ▸ holes
        refine Keeps.bind (Keeps.ofFaulty hs (PartialApplication.openType_exact inside).1)
          fun left t ht _ same => ?_
        obtain ⟨-, rfl⟩ := same
        refine foldPartial_forms { site with type := some left } ht
          (.partialApply holes htarget hargs) fun item same => ?_
        rw [same] at typed
        cases typed
        exact inside

omit simplifies in
theorem checkCallee_forms (hs : s.Formed w busy p.reserve) (site : DynamicSite) (callee : Expr)
    (arity : Nat) :
    (formContract w busy p.reserve).Keeps o s (checkCallee site callee arity) fun _ t => t = s ∧
      ∀ type, callee.inferredType.funcType? = some type → type.arity = arity := by
  unfold checkCallee
  split
  · rename_i untyped
    exact Keeps.pure hs ⟨rfl, fun type typed => by rw [untyped] at typed; cases typed⟩
  · rename_i type typed
    dsimp only
    split
    · exact Keeps.refuse hs (w.common _ rfl)
    · rename_i same
      have done : s = s ∧ ∀ other, callee.inferredType.funcType? = some other →
          other.arity = arity := by
        refine ⟨rfl, fun other typed' => ?_⟩
        cases typed.symm.trans typed'
        exact not_not.1 same
      refine Keeps.bind (Keeps.read hs) fun _ t _ _ same => ?_
      obtain ⟨rfl, rfl⟩ := same
      split
      · split
        · exact Keeps.refuse hs (w.common _ rfl)
        · split
          · exact Keeps.throw hs (w.common _ rfl)
          · exact Keeps.pure hs done
      · exact Keeps.pure hs done

theorem expandClosure_forms {site : DynamicSite} {c : Closure} {args : List Expr}
    (hs : s.Formed w busy p.reserve) (hc : c.Formed w (p.within s)) (blind : c.body.has .ctx = false)
    (arity : c.params.length = args.length) (hargs : ∀ e ∈ args, e.Formed w (p.within s)) :
    Forms w busy p o s (expandClosure simplify site c args) := by
  have hbody := hc.body
  cases hc with
  | intro serves _ hcaptures _ =>
    have keys : (c.params.zip args ++ c.captures).map Prod.fst =
        c.params ++ c.captures.map Prod.fst := by
      rw [List.map_append, List.map_fst_zip (Nat.le_of_eq arity)]
    refine Keeps.bind (expand_forms simplifies hs serves
      (hbody.unfocused (c.body.seesFocus_of_has blind)) (fun x mem => ?_) (fun id mem => ?_)
      (fun x mem => ?_) _ _) fun e t ht _ he =>
        Keeps.pure ht (keepTail_forms he _)
    · exact List.mem_append.1 (keys ▸ List.mem_map_of_mem mem)
    · rw [keys]
      exact List.mem_append.2 mem
    · rcases List.mem_append.1 mem with arg | capture
      · exact hargs x.2 (List.of_mem_zip arg).2
      · exact hcaptures x capture

theorem expandItem_forms {site : DynamicSite} {item : FuncItem} {params : List Variable}
    {captured : List (Variable × Value)} {body : Expr} {scope : Scope} {args : List Expr}
    (hs : s.Formed w busy p.reserve) (hitem : item.Formed w)
    (code : item.code = .closure params captured body scope) (blind : body.has .ctx = false)
    (arity : item.arity = args.length) (hargs : ∀ e ∈ args, e.Formed w (p.within s))
    (origins : List Origin) :
    Forms w busy p o s (expand simplify scope body ((params.map (·.id)).zip args ++
      captured.map fun (v, value) => (v.id, .value value)) origins site.span) := by
  cases hitem with
  | builtin code' => cases code.symm.trans code'
  | closure code' length serves _ _ values hbody =>
    cases code.symm.trans code'
    have lengths : (params.map (·.id)).length = args.length := by
      rw [List.length_map, ← length]
      exact arity
    have keys : ((params.map (·.id)).zip args ++ captured.map fun (q : Variable × Value) =>
        (q.1.id, Expr.value q.2)).map Prod.fst = params.map (·.id) ++ captured.map (·.1.id) := by
      rw [List.map_append, List.map_fst_zip (Nat.le_of_eq lengths), List.map_map]
      rfl
    refine expand_forms simplifies hs serves (hbody.unfocused (body.seesFocus_of_has blind))
      (fun x mem => ?_) (fun id mem => ?_) (fun x mem => ?_) _ _
    · exact List.mem_append.1 (keys ▸ List.mem_map_of_mem mem)
    · rw [keys]
      exact List.mem_append.2 mem
    · rcases List.mem_append.1 mem with arg | capture
      · exact hargs x.2 (List.of_mem_zip arg).2
      · obtain ⟨q, among, rfl⟩ := List.mem_map.1 capture
        exact .value (values q among)

theorem simplifyDynamicCall_forms {site : DynamicSite} {callee : Expr} {args : List Expr}
    (hs : s.Formed w busy p.reserve) (he : (Expr.dynamicCall site callee args).Formed w (p.within s)) :
    Forms w busy p o s (simplifyDynamicCall simplify site callee args) := by
  have whole := he
  cases he with
  | dynamicCall hcallee hargs =>
    have closure : ∀ c : Closure, c.Formed w (p.within s) → c.params.length = args.length →
        Forms w busy p o s (if c.inlinable o && !site.inlinedFrom.contains c.origin then
          expandClosure simplify site c args
        else return .dynamicCall site callee args) := by
      intro c hc arity
      split
      · rename_i inlinable
        simp only [Closure.inlinable, Bool.and_eq_true, Bool.not_eq_true'] at inlinable
        exact expandClosure_forms simplifies hs hc inlinable.1.1.2 arity hargs
      · exact Keeps.pure hs whole
    refine Keeps.bind (checkCallee_forms hs site callee args.length) fun _ t _ _ checked => ?_
    obtain ⟨rfl, checked⟩ := checked
    refine Keeps.bind (Keeps.read hs) fun _ u _ _ same => ?_
    obtain ⟨rfl, rfl⟩ := same
    have typed : ∀ c : Closure, (c.typeWith c.bodyType).arity = c.params.length := fun c => by
      simp [Closure.typeWith, FuncType.arity]
    cases hcallee with
    | value hv =>
      cases hv with
      | @func item hf =>
        dsimp only
        split
        · exact simplifies busy p _ u hs (.builtin hargs)
        · rename_i params captured body scope code
          split
          · rename_i inlinable
            simp only [inlinesItem, Bool.and_eq_true, Bool.not_eq_true'] at inlinable
            refine Keeps.bind (expandItem_forms simplifies hs hf code
              inlinable.1.2 (checked item.type rfl) hargs _) fun e t ht _ he => ?_
            exact Keeps.pure ht (keepTail_forms he _)
          · exact Keeps.pure hs whole
      | int | bool | str | seq => exact Keeps.pure hs whole
    | @closure _ c hc => exact closure c hc ((typed c).symm.trans (checked _ rfl))
    | @literal _ c _ _ _ hc => exact closure c hc ((typed c).symm.trans (checked _ rfl))
    | _ => exact Keeps.pure hs whole

end Compile

namespace Expr

theorem simplifyWith_forms {e : Expr} (hs : s.Formed w busy p.reserve)
    (he : e.Formed w (p.within s)) : Compile.Forms w busy p o s (e.simplifyWith simplify) := by
  have whole := he
  cases he with
  | @letIn _ id slot bound body mem spared hbound hbody =>
    rw [simplifyWith]
    split
    · exact substitute_forms simplifies body p s hs hbound hbody
    · split
      · rename_i dropped
        simp only [Bool.and_eq_true, Bool.not_eq_true'] at dropped
        exact Keeps.pure hs (hbody.closed dropped.1.1)
      · exact Keeps.pure hs whole
  | branch => exact Keeps.pure hs (formed_foldBranch whole)
  | arith => exact Keeps.pure hs (formed_foldArith whole)
  | compare => exact Keeps.pure hs (formed_foldCompare whole)
  | seq => exact Keeps.pure hs (formed_foldSeq whole)
  | treat => exact Keeps.pure hs (formed_foldTreat whole)
  | builtin => exact Keeps.pure hs (formed_foldBuiltin whole)
  | closure hc =>
    refine (Closure.simplifyWith_forms simplifies hs hc).mono fun e t _ _ made => ?_
    rcases made with ⟨f, rfl, hf⟩ | ⟨c', rfl, -, -, hc'⟩
    · exact .value (.func hf)
    · exact .closure hc'
  | literal called bare hc =>
    refine Keeps.bind (Closure.simplifyWith_forms simplifies hs hc) fun e t ht _ made => ?_
    refine Keeps.pure ht ?_
    rcases made with ⟨f, rfl, hf⟩ | ⟨c', rfl, params, still, hc'⟩
    · exact .value (.func hf)
    · exact .literal (params ▸ called) (still bare) hc'
  | partialApply => exact Compile.simplifyPartial_forms hs whole
  | call => exact Compile.simplifyCall_forms simplifies hs whole
  | dynamicCall => exact Compile.simplifyDynamicCall_forms simplifies hs whole
  | value | var | focus | error => exact Keeps.pure hs whole

omit simplifies in
theorem simplify_forms (w : World) (o : Options) (budget : Nat) :
    SimplifierForms w o (Expr.simplify budget) := by
  induction budget with
  | zero => exact fun _ _ _ _ _ _ => Keeps.of_fault rfl trivial
  | succ budget ih => exact fun _ _ _ _ hs he => simplifyWith_forms ih hs he

end Expr

end QueryFunctions
