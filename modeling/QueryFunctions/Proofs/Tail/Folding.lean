import QueryFunctions.Compile.Folding
import QueryFunctions.Expr.Sites
import QueryFunctions.Proofs.Tail.Static

/-! Local changes to code with more tail calls. Changes to call sites and simplifications do not look at
the marks, so they give code with more tail calls again. -/
namespace QueryFunctions

abbrev CallSite.Carries (f : CallSite → CallSite) : Prop :=
  ∀ {site site' : CallSite}, site.MoreTail site' → (f site).MoreTail (f site')

abbrev DynamicSite.Carries (g : DynamicSite → DynamicSite) : Prop :=
  ∀ {site site' : DynamicSite}, site.MoreTail site' → (g site).MoreTail (g site')

section

variable {f : CallSite → CallSite} {g : DynamicSite → DynamicSite}

mutual
theorem Expr.MoreTail.mapSites (hf : CallSite.Carries f) (hg : DynamicSite.Carries g) :
    {e e' : Expr} → e.MoreTail e' →
    (e.mapSites f g).MoreTail (e'.mapSites f g)
  | _, _, .value h => .value h
  | _, _, .var ref => .var ref
  | _, _, .focus span => .focus span
  | _, _, .error e => .error e
  | _, _, .letIn id slot h h' => .letIn id slot (h.mapSites hf hg) (h'.mapSites hf hg)
  | _, _, .branch span h h' h'' => .branch span (h.mapSites hf hg) (h'.mapSites hf hg) (h''.mapSites hf hg)
  | _, _, .arith op span h h' => .arith op span (h.mapSites hf hg) (h'.mapSites hf hg)
  | _, _, .compare op span h h' => .compare op span (h.mapSites hf hg) (h'.mapSites hf hg)
  | _, _, .seq h => .seq (h.mapSites hf hg)
  | _, _, .treat type span h => .treat type span (h.mapSites hf hg)
  | _, _, .builtin function span h => .builtin function span (h.mapSites hf hg)
  | _, _, .closure h => .closure (h.mapSites hf hg)
  | _, _, .literal site h => .literal site (h.mapSites hf hg)
  | _, _, .partialApply site h h' => .partialApply site (h.mapSites hf hg) (h'.mapSites hf hg)
  | _, _, .call hsite h => .call (hf hsite) (h.mapSites hf hg)
  | _, _, .dynamicCall hsite h h' => .dynamicCall (hg hsite) (h.mapSites hf hg) (h'.mapSites hf hg)

theorem ListMoreTail.mapSites (hf : CallSite.Carries f) (hg : DynamicSite.Carries g) :
    {es es' : List Expr} → ListMoreTail es es' →
    ListMoreTail (mapListSites f g es) (mapListSites f g es')
  | _, _, .nil => .nil
  | _, _, .cons h h' => .cons (h.mapSites hf hg) (h'.mapSites hf hg)

theorem Closure.MoreTail.mapSites (hf : CallSite.Carries f) (hg : DynamicSite.Carries g) :
    {c c' : Closure} → c.MoreTail c' →
    (c.mapSites f g).MoreTail (c'.mapSites f g)
  | _, _, .closure _ _ _ _ _ _ _ _ h h' => .closure _ _ _ _ _ _ _ _ (h.mapSites hf hg) (h'.mapSites hf hg)

theorem SuppliesMoreTail.mapSites (hf : CallSite.Carries f) (hg : DynamicSite.Carries g) :
    {es es' : List (VarId × Expr)} → SuppliesMoreTail es es' →
    SuppliesMoreTail (mapSupplySites f g es) (mapSupplySites f g es')
  | _, _, .nil => .nil
  | _, _, .cons id h h' => .cons id (h.mapSites hf hg) (h'.mapSites hf hg)
end

end

namespace Expr.MoreTail

variable {e e' lhs lhs' rhs rhs' cond cond' yes yes' no no' : Expr} {es es' : List Expr}

theorem addOrigins (h : e.MoreTail e') (origins : List Origin) :
    (e.addOrigins origins).MoreTail (e'.addOrigins origins) :=
  h.mapSites id (.map (f := (·.addOrigins origins)) (fun _ => rfl) fun _ _ => rfl)

theorem refreshCalls (h : e.MoreTail e') (flagsOf : FuncId → Option Flags) :
    (e.refreshCalls flagsOf).MoreTail (e'.refreshCalls flagsOf) := by
  refine h.mapSites (.map (f := (·.refresh flagsOf)) (fun site => ?_) fun site tail => ?_) id
  · unfold CallSite.refresh
    split <;> rfl
  · unfold CallSite.refresh
    dsimp only
    split <;> rfl

theorem ofResult {result result' : Except QueryError Value}
    (h : Ends Value.MoreTail result result') :
    (Expr.ofResult result).MoreTail (Expr.ofResult result') := by
  cases h with
  | ok h => exact .value h
  | error e => exact .error e

theorem value? (h : e.MoreTail e') : Option.Rel Value.MoreTail e.value? e'.value? := by
  cases h with
  | value h => exact .some h
  | _ => exact .none

theorem values? (h : ListMoreTail es es') :
    Option.Rel ValuesMoreTail (Expr.values? es) (Expr.values? es') := by
  unfold Expr.values?
  rw [listMoreTail_iff] at h
  induction h with
  | nil => exact .some .nil
  | @cons e e' es es' he _ ih =>
    have head := he.value?
    rw [List.mapM_cons, List.mapM_cons]
    generalize e.value? = v at head ⊢
    generalize e'.value? = w at head ⊢
    generalize es.mapM Expr.value? = vs at ih ⊢
    generalize es'.mapM Expr.value? = ws at ih ⊢
    cases head with
    | none => exact .none
    | some hv =>
      cases ih with
      | none => exact .none
      | some hvs => exact .some (.cons hv hvs)

theorem foldBranch (h : cond.MoreTail cond') (hyes : yes.MoreTail yes') (hno : no.MoreTail no')
    (span : Span) :
    (Expr.foldBranch cond yes no span).MoreTail (Expr.foldBranch cond' yes' no' span) := by
  cases h with
  | value hv =>
    unfold Expr.foldBranch
    dsimp only
    rw [hv.looksLike.ebv_eq]
    split
    · exact hyes
    · exact hno
    · exact .branch span (.value hv) hyes hno
  | _ => exact .branch span (by constructor <;> assumption) hyes hno

theorem foldArith (op : ArithOp) (h : lhs.MoreTail lhs') (h' : rhs.MoreTail rhs') (span : Span) :
    (Expr.foldArith op lhs rhs span).MoreTail (Expr.foldArith op lhs' rhs' span) := by
  have left := h.value?
  have right := h'.value?
  unfold Expr.foldArith
  generalize lhs.value? = l at left ⊢
  generalize lhs'.value? = l' at left ⊢
  generalize rhs.value? = r at right ⊢
  generalize rhs'.value? = r' at right ⊢
  cases left with
  | none => exact .arith op span h h'
  | some hl =>
    cases right with
    | none => exact .arith op span h h'
    | some hr =>
      dsimp only
      rw [hl.looksLike.arith_eq hr.looksLike]
      exact .ofResult (.refl .refl _)

theorem foldCompare (op : CompareOp) (h : lhs.MoreTail lhs') (h' : rhs.MoreTail rhs') (span : Span) :
    (Expr.foldCompare op lhs rhs span).MoreTail (Expr.foldCompare op lhs' rhs' span) := by
  have left := h.value?
  have right := h'.value?
  unfold Expr.foldCompare
  generalize lhs.value? = l at left ⊢
  generalize lhs'.value? = l' at left ⊢
  generalize rhs.value? = r at right ⊢
  generalize rhs'.value? = r' at right ⊢
  cases left with
  | none => exact .compare op span h h'
  | some hl =>
    cases right with
    | none => exact .compare op span h h'
    | some hr =>
      dsimp only
      rw [hl.looksLike.compare_eq hr.looksLike]
      exact .ofResult (.refl .refl _)

theorem foldSeq (h : ListMoreTail es es') : (Expr.foldSeq es).MoreTail (Expr.foldSeq es') := by
  have constants := values? h
  unfold Expr.foldSeq
  generalize Expr.values? es = vs at constants ⊢
  generalize Expr.values? es' = ws at constants ⊢
  cases constants with
  | none => exact .seq h
  | some hvs => exact .value (.ofItems hvs)

theorem foldTreat (h : e.MoreTail e') (type : SeqType) (span : Span) :
    (Expr.foldTreat e type span).MoreTail (Expr.foldTreat e' type span) := by
  have constant := h.value?
  unfold Expr.foldTreat
  generalize e.value? = v at constant ⊢
  generalize e'.value? = w at constant ⊢
  cases constant with
  | none =>
    dsimp only
    rw [h.inferredType_eq]
    split
    · exact h
    · exact .treat type span h
  | some hv =>
    dsimp only
    rw [hv.looksLike.accepts_eq, hv.looksLike.typeName_eq]
    split
    · exact h
    · exact .error _

theorem foldBuiltin (function : Builtin) (h : ListMoreTail es es') (span : Span) :
    (Expr.foldBuiltin function es span).MoreTail (Expr.foldBuiltin function es' span) := by
  have whole : (Expr.builtin function es span).MoreTail (.builtin function es' span) :=
    .builtin function span h
  have constants := values? h
  unfold Expr.foldBuiltin
  generalize Expr.values? es = vs at constants ⊢
  generalize Expr.values? es' = ws at constants ⊢
  cases constants with
  | none => cases function <;> exact whole
  | some hvs =>
    cases hvs with
    | nil => cases function <;> exact whole
    | cons hv rest =>
      cases rest with
      | cons _ _ => cases function <;> exact whole
      | nil =>
        cases function with
        | count =>
          dsimp only
          rw [hv.items.length_eq]
          exact .refl _
        | functionArity =>
          refine .ofResult ((hv.asFunc span).map fun f g hf => ?_)
          rw [hf.looksLike.arity_eq]
          exact .int _
        | functionName =>
          refine .ofResult ((hv.asFunc span).map fun f g hf => ?_)
          rw [hf.looksLike.ofName_eq]
          exact .refl _
        | _ => exact whole

theorem coerce (h : e.MoreTail e') (declared : Option SeqType) (span : Span) :
    (e.coerce declared span).MoreTail (e'.coerce declared span) := by
  cases declared with
  | none => exact h
  | some type =>
    simp only [Expr.coerce, h.inferredType_eq]
    split
    · exact h
    · exact .treat type span h

end Expr.MoreTail

end QueryFunctions
