import QueryFunctions.Proofs.Termination.Expansion

/-! Closures, partial applications and calls of registered functions settle when they are simplified. The
simplifier is run again on the body of a closure, but only where a captured constant has gone into it,
so the body weighs less than the closure. -/
namespace QueryFunctions

open Contract

variable {ι : Type} {d : Terms} {r : Registry} {o : Options} {outer inner : List Origin}
  {limit : Weight} {fresh n : Nat} {s : CompileState} {simplify : ι → Nat → Expr → Compile Expr}

namespace Closure

section

variable (simplifies : SimplifierSettles d r o inner limit simplify)

include simplifies

theorem substituteAll_settles : (constants : List (VarId × Expr)) → (body : Expr) →
    (s : CompileState) → s.registry = r →
    (∀ x ∈ constants, x.2.isAtom = true ∧ x.2.Tame d inner s.supply.nextVar) →
    body.Below d inner s.supply.nextVar limit →
    (simplifyContract r).Settles o s (fun i n => constants.foldlM (fun body (id, new) => do
      Compile.deferred (← Compile.attempt (body.substitute (simplify i n) ⟨id, new⟩))) body) fun e t =>
        e.Tame d inner t.supply.nextVar ∧ (e.weight d.origins).Lighter (body.weight d.origins)
  | [], body, s, hs, _, hbody => Settles.pure hs ⟨hbody.tame, .refl _⟩
  | (id, new) :: constants, body, s, hs, all, hbody => by
    obtain ⟨atom, hnew⟩ := all (id, new) List.mem_cons_self
    let sub : Substitution := ⟨id, new⟩
    have made : (simplifyContract r).Settles o s (fun i n => body.substitute (simplify i n) sub)
        fun e t => body.Lightens d inner t.supply.nextVar e :=
      Expr.substitute_settles simplifies atom body s hs hnew hbody
    have first : (simplifyContract r).Settles o s (fun i n => do
        Compile.deferred (← Compile.attempt (body.substitute (simplify i n) ⟨id, new⟩))) fun e t =>
          e.Tame d inner t.supply.nextVar ∧ (e.weight d.origins).Lighter (body.weight d.origins) := by
      refine Settles.bind (Settles.attempt made) fun result t ht _ hresult => Settles.of_keeps ?_
      refine Keeps.deferred ht (fun e same => ⟨(hresult.1 e same).tame, (hresult.1 e same).lighter⟩)
        fun err _ => ⟨trivial, Expr.tame_error err, .of_le ?_⟩
      rw [Expr.weight_eq]
      exact Multiset.zero_le _
    refine Settles.congr (Settles.bind first fun body' t ht led hbody' => ?_) fun i n => by
      rw [List.foldlM_cons]
    obtain ⟨hst, -⟩ := led
    exact (substituteAll_settles constants body' t ht
      (fun x mem => (all x (by simp [mem])).imp_right fun h => h.later hst)
      ⟨hbody'.1, hbody'.2.trans_lt hbody.light⟩).mono fun e u _ _ h => ⟨h.1, h.2.trans hbody'.2⟩

end

theorem weight_eq (c : Closure) (origins : Finset Origin) :
    (Expr.closure c).weight origins = .replicate c.captures.length bottomRank +
      ((c.captures.map fun x => x.2.weight origins).sum + c.body.weight origins) := by
  rw [Expr.weight_eq]
  simp [Expr.parts, Expr.kind, Kind.charge, Function.comp_def]

theorem body_lt {c : Closure} (some : c.captures ≠ []) (origins : Finset Origin) :
    (c.body.weight origins).IsDershowitzMannaLT ((Expr.closure c).weight origins) := by
  obtain ⟨m, length⟩ := Nat.exists_eq_succ_of_ne_zero (mt List.length_eq_zero_iff.1 some)
  rw [weight_eq, length, Multiset.replicate_succ, ← Multiset.singleton_add, add_assoc,
    ← zero_add (c.body.weight origins)]
  refine Weight.replaced_lt ?_ (by simp)
  rw [zero_add]
  exact le_trans (Multiset.le_add_left _ _) (Multiset.le_add_left _ _)

theorem propagate_settles {c : Closure} (hs : s.registry = r)
    (hc : (Expr.closure c).Tame d inner s.supply.nextVar)
    (simplifies : SimplifierSettles d r o inner ((Expr.closure c).weight d.origins) simplify) :
    (simplifyContract r).Settles o s (fun i n => c.propagate (simplify i n)) fun c' t =>
      (Expr.closure c').Tame d inner t.supply.nextVar ∧
        ((Expr.closure c').weight d.origins).Lighter ((Expr.closure c).weight d.origins) := by
  cases none : (c.captures.filter (·.2.isValue)).isEmpty with
  | true =>
    simp only [propagate, none, if_true]
    exact Settles.pure hs ⟨hc, .refl _⟩
  | false =>
    have some : c.captures ≠ [] := by
      rintro same
      simp [same] at none
    have capture : ∀ x ∈ c.captures, x.2.Tame d inner s.supply.nextVar := fun x mem =>
      hc.part (by simp only [Expr.parts, List.mem_append]; exact .inl (List.mem_map_of_mem mem))
    have hbody : c.body.Below d inner s.supply.nextVar ((Expr.closure c).weight d.origins) :=
      ⟨hc.part (by simp [Expr.parts]), body_lt some d.origins⟩
    simp only [propagate, none, Bool.false_eq_true, if_false]
    refine Settles.bind ((substituteAll_settles simplifies (c.captures.filter (·.2.isValue)) c.body
      { s with scope := c.scope } hs (fun x mem => ?atoms) hbody).inScope (fun _ _ h => h)
        fun _ _ _ _ h => h) fun x t ht led hx => ?rest
    case atoms =>
      obtain ⟨among, constant⟩ := List.mem_filter.1 mem
      refine ⟨?_, capture x among⟩
      cases h : x.2 <;> simp [h, Expr.isValue, Expr.isAtom] at constant ⊢
    case rest =>
      obtain ⟨hst, -⟩ := led
      refine Settles.of_keeps (Keeps.bind (Keeps.ofExcept ht fun _ _ => trivial)
        fun body u hu _ made => ?_)
      obtain ⟨same, rfl⟩ := made
      obtain ⟨tame, lighter⟩ := hx.1 body same
      refine Keeps.bind (Keeps.read hu) fun options v hv _ same => ?_
      obtain ⟨-, rfl⟩ := same
      refine Keeps.pure hv
        ⟨Expr.tame_iff.2 ⟨⟨(Expr.tame_iff.1 hc).1.fits, by rintro _ ⟨⟩⟩, fun p mem => ?_⟩, ?_⟩
      · rcases List.mem_append.1 mem with mem | mem
        · obtain ⟨x, among, rfl⟩ := List.mem_map.1 mem
          exact (capture x (List.mem_filter.1 among).1).later hst
        · exact List.mem_singleton.1 mem ▸ tame.keepTail _
      · rw [weight_eq, weight_eq]
        dsimp only
        rw [Expr.weight_of_kinds_eq (Expr.kinds_keepTail _ body)]
        refine Weight.Lighter.add (.of_le ?_) (.add (.of_le ?_) lighter)
        · exact (Multiset.replicate_le_replicate _).2 (List.length_filter_le _ _)
        · exact List.Sublist.sum_le_sum (List.Sublist.map _ List.filter_sublist) fun _ _ => Multiset.zero_le _

theorem simplifyWith_settles {c : Closure} (hs : s.registry = r)
    (hc : (Expr.closure c).Tame d inner s.supply.nextVar)
    (simplifies : SimplifierSettles d r o inner ((Expr.closure c).weight d.origins) simplify) :
    (simplifyContract r).Settles o s (fun i n => c.simplifyWith (simplify i n)) fun e t =>
      (Expr.closure c).Lightens d inner t.supply.nextVar e := by
  cases compiled : c.compiled with
  | false =>
    simp only [simplifyWith, compiled, Bool.not_false, if_true]
    exact Settles.pure hs (.refl hc)
  | true =>
    simp only [simplifyWith, compiled, Bool.not_true, Bool.false_eq_true, if_false]
    refine Settles.bind (propagate_settles hs hc simplifies) fun c' t ht _ hc' => ?_
    refine Settles.of_keeps ?_
    have lightens : (Expr.closure c).Lightens d inner t.supply.nextVar (.closure c') :=
      ⟨hc'.1, hc'.2, by rintro _ ⟨⟩⟩
    split
    · have origin : c'.origin ∈ d.origins := (Expr.tame_iff.1 hc'.1).1.fits
      have body : c'.body.Tame d inner t.supply.nextVar := hc'.1.part (by simp [Expr.parts])
      refine Keeps.bind (Compile.draw_settles ht (Gives.liftSupply (Nat.le_refl _)))
        fun f u hu led drawn => Keeps.pure hu ?_
      have item := tame_toItem origin body t.supply
      rw [← congrArg Prod.fst drawn.1] at item
      exact .value (.func (item.mono (.refl d) led.1)) rfl
    · exact Keeps.pure ht lightens

end Closure

theorem Expr.kinds_rewrapLiteral (site : LiteralSite) (e : Expr) :
    (Compile.rewrapLiteral site e).kinds = e.kinds := by
  cases e with
  | closure c => rw [Compile.rewrapLiteral, kinds_eq, kinds_eq (.closure c)]; rfl
  | _ => rfl

namespace Compile

theorem foldPartial_settles (site' : PartialSite) {site : PartialSite} {target : Expr} {args : List Expr}
    (hs : s.registry = r) (he : (Expr.partialApply site target args).Tame d inner s.supply.nextVar) :
    (simplifyContract r).Keeps o s
      (match target, Expr.values? args with
        | .value (.func item), some supplied => do
          return .value (.func (← draw (PartialApplication.make item supplied site'.holes site'.span)))
        | _, _ => return .partialApply site' target args) fun e t =>
          (Expr.partialApply site target args).Lightens d inner t.supply.nextVar e := by
  split
  · rename_i item supplied found
    have hitem : item.Tame d s.supply.nextVar :=
      Expr.tame_value_iff.1 (he.part (by simp [Expr.parts])) item .item
    refine Keeps.bind (draw_settles hs (PartialApplication.make_tame site'.holes site'.span s.supply
      hitem (Expr.tame_of_values? (fun e mem => he.part (by simp [Expr.parts, mem])) found)))
      fun f t ht _ drawn => ?_
    exact Keeps.pure ht (.value (.func drawn.1) rfl)
  · refine Keeps.pure hs (.node (Expr.tame_iff.1 he).1 (.refl _) ?_ rfl)
    exact List.forall₂_same.2 fun p mem => .refl (he.part mem)

theorem simplifyPartial_settles {site : PartialSite} {target : Expr} {args : List Expr}
    (hs : s.registry = r) (he : (Expr.partialApply site target args).Tame d inner s.supply.nextVar) :
    (simplifyContract r).Keeps o s (simplifyPartial site target args) fun e t =>
      (Expr.partialApply site target args).Lightens d inner t.supply.nextVar e := by
  unfold simplifyPartial
  dsimp only
  split
  · exact foldPartial_settles site hs he
  · rename_i type typed
    split
    · exact Keeps.refuse hs trivial
    · refine Keeps.bind (Keeps.ofFaulty hs fun f => PartialApplication.openType_fault _ _)
        fun left t _ _ same => ?_
      obtain ⟨-, rfl⟩ := same
      exact foldPartial_settles { site with type := some left } hs he

theorem checkCallee_settles (hs : s.registry = r) (site : DynamicSite) (callee : Expr) (arity : Nat) :
    (simplifyContract r).Keeps o s (checkCallee site callee arity) fun _ t => t = s := by
  unfold checkCallee
  split
  · exact Keeps.pure hs rfl
  · dsimp only
    split
    · exact Keeps.refuse hs trivial
    · refine Keeps.bind (Keeps.read hs) fun _ t _ _ same => ?_
      obtain ⟨rfl, rfl⟩ := same
      split
      · split
        · exact Keeps.refuse hs trivial
        · split
          · exact Keeps.throw hs trivial
          · exact Keeps.pure hs rfl
      · exact Keeps.pure hs rfl

theorem simplifyCall_settles {site : CallSite} {args : List Expr} (hs : s.registry = r)
    {entry : Entry} (found : r.find? site.target = some entry) (closed : entry.inlinable o = false)
    (he : (Expr.call site args).Tame d inner s.supply.nextVar) :
    (simplifyContract r).Settles o s (fun i n => simplifyCall (simplify i n) site args) fun e t =>
      (Expr.call site args).Lightens d inner t.supply.nextVar e := by
  subst hs
  refine Settles.keeps_bind (Keeps.entryOf rfl fun _ => by simp [simplifyContract])
    fun x t ht _ here => ?_
  obtain ⟨here, rfl⟩ := here
  cases found.symm.trans here
  cases entry.body with
  | none => exact Settles.pure ht (.refl he)
  | some b =>
    refine Settles.keeps_bind (Keeps.read ht) fun _ u hu _ same => ?_
    obtain ⟨rfl, rfl⟩ := same
    simp only [closed, Bool.false_eq_true, if_false]
    exact Settles.pure hu (.refl he)

end Compile

end QueryFunctions
