import QueryFunctions.Compile.Folding
import QueryFunctions.Proofs.Expr.Nodes
import QueryFunctions.Proofs.Form.Basic

/-! Local rewriting of well-formed code: folded constants, checks around a body, marked tails and call
sites brought up to date. Operations on values never fail for want of a function. -/
namespace QueryFunctions

namespace QueryError

theorem asInt_isResolution {v : Value} {span : Span} {e : QueryError}
    (failed : v.asInt span = .error e) : e.isResolution = false := by
  cases v <;> cases failed <;> rfl

theorem asFunc_isResolution {v : Value} {span : Span} {e : QueryError}
    (failed : v.asFunc span = .error e) : e.isResolution = false := by
  cases v <;> cases failed <;> rfl

theorem ebv_isResolution {v : Value} {span : Span} {e : QueryError}
    (failed : v.ebv span = .error e) : e.isResolution = false := by
  unfold Value.ebv at failed
  split at failed <;> cases failed
  rfl

theorem words_isResolution {op : ArithOp} {l r : Int64} {span : Span} {e : QueryError}
    (failed : op.words l r span = .error e) : e.isResolution = false := by
  unfold ArithOp.words at failed
  split at failed
  · cases failed
    rfl
  · split at failed <;> cases failed
    rfl

theorem arith_isResolution {op : ArithOp} {lhs rhs : Value} {span : Span} {e : QueryError}
    (failed : op.apply lhs rhs span = .error e) : e.isResolution = false := by
  unfold ArithOp.apply at failed
  split at failed
  · cases failed
  · cases hl : lhs.asInt span with
    | error f =>
      simp only [hl, bind, Except.bind, Except.error.injEq] at failed
      exact failed ▸ asInt_isResolution hl
    | ok l =>
      cases hr : rhs.asInt span with
      | error f =>
        simp only [hl, hr, bind, Except.bind, Except.error.injEq] at failed
        exact failed ▸ asInt_isResolution hr
      | ok r =>
        cases hw : op.words l r span with
        | error f =>
          simp only [hl, hr, hw, bind, Except.bind, Except.error.injEq] at failed
          exact failed ▸ words_isResolution hw
        | ok i => simp [hl, hr, hw, bind, Except.bind, pure, Except.pure] at failed

theorem compare_isResolution {op : CompareOp} {lhs rhs : Value} {span : Span} {e : QueryError}
    (failed : op.apply lhs rhs span = .error e) : e.isResolution = false := by
  unfold CompareOp.apply at failed
  split at failed
  · cases failed
  · cases order : lhs.order rhs span with
    | ok o => simp [order, Except.map] at failed
    | error f =>
      simp only [order, Except.map, Except.error.injEq] at failed
      subst failed
      unfold Value.order at order
      split at order <;> cases order <;> rfl

end QueryError

variable {w : World} {p : Place}

namespace Value

theorem formed_empty : Value.empty.Formed w := .seq (by simp)

theorem formed_ofName (f : FuncItem) : (ofName f).Formed w := by
  unfold ofName
  split
  · exact .str
  · exact formed_empty

theorem Formed.items {v x : Value} (hv : v.Formed w) (mem : x ∈ v.items) : x.Formed w := by
  cases hv with
  | seq all => exact all x mem
  | func hf => exact List.mem_singleton.1 mem ▸ .func hf
  | int => exact List.mem_singleton.1 mem ▸ .int
  | bool => exact List.mem_singleton.1 mem ▸ .bool
  | str => exact List.mem_singleton.1 mem ▸ .str

theorem formed_ofItems {vs : List Value} (all : ∀ v ∈ vs, v.Formed w) : (ofItems vs).Formed w := by
  have flat : ∀ x ∈ vs.flatMap items, x.Formed w := by
    intro x mem
    obtain ⟨v, hv, mem⟩ := List.mem_flatMap.1 mem
    exact (all v hv).items mem
  unfold ofItems
  split
  · rename_i v single
    exact flat v (by simp [single])
  · exact .seq flat

theorem Formed.asFunc {v : Value} {f : FuncItem} {span : Span} (hv : v.Formed w)
    (found : v.asFunc span = .ok f) : f.Formed w := by
  cases hv with
  | func hf =>
    cases found
    exact hf
  | int | bool | str | seq => cases found

theorem formed_of_arith {op : ArithOp} {lhs rhs v : Value} {span : Span}
    (computed : op.apply lhs rhs span = .ok v) : v.Formed w := by
  rcases op.apply_cases lhs rhs span with h | ⟨e, h⟩ | ⟨i, h⟩ <;> rw [h] at computed <;> cases computed
  · exact formed_empty
  · exact .int

end Value

namespace Expr

variable {e : Expr}

theorem Formed.of_value? {v : Value} (he : e.Formed w p) (found : e.value? = some v) :
    v.Formed w := by
  cases he with
  | value hv =>
    cases found
    exact hv
  | _ => cases found

theorem formed_of_values? {es : List Expr} {vs : List Value} (all : ∀ e ∈ es, e.Formed w p)
    (found : values? es = some vs) : ∀ v ∈ vs, v.Formed w := by
  induction es generalizing vs with
  | nil =>
    cases found
    simp
  | cons e es ih =>
    simp only [values?, List.mapM_cons, Option.bind_eq_bind, Option.pure_def,
      Option.bind_eq_some_iff] at found
    obtain ⟨v, hv, vs', rest, same⟩ := found
    cases same
    have head := (all e (by simp)).of_value? hv
    exact List.forall_mem_cons.2 ⟨head, ih (fun x hx => all x (by simp [hx])) rest⟩

theorem formed_ofResult {result : Except QueryError Value} (value : ∀ v, result = .ok v → v.Formed w)
    (raised : ∀ e, result = .error e → e.isResolution = false) : (ofResult result).Formed w p := by
  cases result with
  | ok v => exact .value (value v rfl)
  | error e => exact .error (w.common e (raised e rfl))

theorem formed_foldBranch {cond yes no : Expr} {span : Span}
    (he : (Expr.branch cond yes no span).Formed w p) : (foldBranch cond yes no span).Formed w p := by
  have whole := he
  cases he with
  | branch hcond hyes hno =>
    unfold foldBranch
    split
    · split
      · exact hyes
      · exact hno
      · exact whole
    · exact whole

theorem formed_foldArith {op : ArithOp} {lhs rhs : Expr} {span : Span}
    (he : (Expr.arith op lhs rhs span).Formed w p) : (foldArith op lhs rhs span).Formed w p := by
  unfold foldArith
  split
  · exact formed_ofResult (fun v => Value.formed_of_arith) fun e => QueryError.arith_isResolution
  · exact he

theorem formed_foldCompare {op : CompareOp} {lhs rhs : Expr} {span : Span}
    (he : (Expr.compare op lhs rhs span).Formed w p) : (foldCompare op lhs rhs span).Formed w p := by
  unfold foldCompare
  split
  · rename_i l r _ _
    cases h : op.apply l r span with
    | error e => exact .error (w.common e (QueryError.compare_isResolution h))
    | ok b => exact .value .bool
  · exact he

theorem formed_foldSeq {items : List Expr} (he : (Expr.seq items).Formed w p) :
    (foldSeq items).Formed w p := by
  have whole := he
  cases he with
  | seq all =>
    unfold foldSeq
    split
    · rename_i vs found
      exact .value (Value.formed_ofItems (formed_of_values? all found))
    · exact whole

theorem formed_foldTreat {type : SeqType} {span : Span} (he : (Expr.treat e type span).Formed w p) :
    (foldTreat e type span).Formed w p := by
  have whole := he
  cases he with
  | treat inner =>
    unfold foldTreat
    split
    · split
      · exact inner
      · exact .error (w.common _ rfl)
    · split
      · exact inner
      · exact whole

theorem formed_foldBuiltin {function : Builtin} {args : List Expr} {span : Span}
    (he : (Expr.builtin function args span).Formed w p) :
    (foldBuiltin function args span).Formed w p := by
  have ofMap : ∀ {f : FuncItem → Value} {v : Value}, (∀ g, (f g).Formed w) →
      (ofResult ((v.asFunc span).map f)).Formed w p := by
    intro f v hf
    cases h : v.asFunc span with
    | error e => exact .error (w.common e (QueryError.asFunc_isResolution h))
    | ok g => exact .value (hf g)
  unfold foldBuiltin
  split
  · exact .value .int
  · exact ofMap fun _ => .int
  · exact ofMap Value.formed_ofName
  · exact he

theorem Formed.coerce (he : e.Formed w p) (declared : Option SeqType) (span : Span) :
    (e.coerce declared span).Formed w p := by
  unfold Expr.coerce
  split
  · split
    · exact he
    · exact .treat he
  · exact he

theorem Formed.markTails : {p : Place} → {e : Expr} → e.Formed w p → e.markTails.Formed w p
  | _, _, .branch hcond hyes hno => .branch hcond hyes.markTails hno.markTails
  | _, _, .letIn mem spared hbound hbody => .letIn mem spared hbound hbody.markTails
  | _, _, .call called hargs => .call called hargs
  | _, _, .dynamicCall hcallee hargs => .dynamicCall hcallee hargs
  | _, _, .value h => .value h
  | _, _, .var bound mem => .var bound mem
  | _, _, .arith hl hr => .arith hl hr
  | _, _, .compare hl hr => .compare hl hr
  | _, _, .seq h => .seq h
  | _, _, .focus h => .focus h
  | _, _, .treat h => .treat h
  | _, _, .builtin h => .builtin h
  | _, _, .error h => .error h
  | _, _, .closure h => .closure h
  | _, _, .literal called bare h => .literal called bare h
  | _, _, .partialApply holes htarget hargs => .partialApply holes htarget hargs

end Expr

section

variable (f : CallSite → CallSite) (g : DynamicSite → DynamicSite)

theorem Closure.keys_mapSites (c : Closure) :
    (c.mapSites f g).captures.map Prod.fst = c.captures.map Prod.fst := by
  rw [Closure.mapSites_eq, List.map_map]
  rfl

variable {f g} (same : ∀ site, (f site).target = site.target)

mutual
/-- Call sites may learn more about their calls, as long as the functions that are called stay. -/
theorem Expr.Formed.mapSites (same : ∀ site, (f site).target = site.target) :
    {p : Place} → {e : Expr} → e.Formed w p → (e.mapSites f g).Formed w p
  | _, _, .value h => .value h
  | _, _, .var bound mem => .var bound mem
  | _, _, .letIn mem spared hbound hbody => .letIn mem spared (hbound.mapSites same) (hbody.mapSites same)
  | _, _, .branch hcond hyes hno => .branch (hcond.mapSites same) (hyes.mapSites same) (hno.mapSites same)
  | _, _, .arith hl hr => .arith (hl.mapSites same) (hr.mapSites same)
  | _, _, .compare hl hr => .compare (hl.mapSites same) (hr.mapSites same)
  | _, _, .seq h => by
    rw [Expr.mapSites, mapListSites_eq]
    exact .seq (List.forall_mem_map.2 fun e mem => (h e mem).mapSites same)
  | _, _, .focus h => .focus h
  | _, _, .treat h => .treat (h.mapSites same)
  | _, _, .builtin h => by
    rw [Expr.mapSites, mapListSites_eq]
    exact .builtin (List.forall_mem_map.2 fun e mem => (h e mem).mapSites same)
  | _, _, .error h => .error h
  | _, _, .closure hc => .closure (hc.mapSites same)
  | _, _, .literal (c := c) called bare hc => by
    have params : (c.mapSites f g).params = c.params := by rw [Closure.mapSites_eq]
    exact .literal (params ▸ called) (by rw [Closure.mapSites_eq, bare, List.map_nil]) (hc.mapSites same)
  | _, _, .partialApply holes htarget hargs => by
    rw [Expr.mapSites, mapListSites_eq]
    exact .partialApply (by rwa [List.length_map]) (htarget.mapSites same)
      (List.forall_mem_map.2 fun e mem => (hargs e mem).mapSites same)
  | _, _, .call called hargs => by
    rw [Expr.mapSites, mapListSites_eq]
    exact .call (by rwa [same, List.length_map])
      (List.forall_mem_map.2 fun e mem => (hargs e mem).mapSites same)
  | _, _, .dynamicCall hcallee hargs => by
    rw [Expr.mapSites, mapListSites_eq]
    exact .dynamicCall (hcallee.mapSites same)
      (List.forall_mem_map.2 fun e mem => (hargs e mem).mapSites same)

theorem Closure.Formed.mapSites (same : ∀ site, (f site).target = site.target) :
    {p : Place} → {c : Closure} → c.Formed w p →
    (c.mapSites f g).Formed w p
  | p, c, .intro serves apart hcaptures hbody => by
    have keys := c.keys_mapSites f g
    have place : (c.mapSites f g).placeIn p = c.placeIn p := by
      unfold Closure.placeIn
      rw [keys, Closure.mapSites_eq]
    refine .intro ?_ ?_ ?_ ?_
    · rw [keys, Closure.mapSites_eq]
      exact serves
    · rw [Closure.mapSites_eq]
      exact apart
    · rw [Closure.mapSites_eq]
      exact List.forall_mem_map.2 fun x mem => (hcaptures x mem).mapSites same
    · rw [place, Closure.mapSites_eq]
      exact hbody.mapSites same
end

end

namespace Expr

variable {e : Expr}

theorem Formed.addOrigins (he : e.Formed w p) (origins : List Origin) :
    (e.addOrigins origins).Formed w p := he.mapSites fun _ => rfl

theorem Formed.refreshCalls (he : e.Formed w p) (flagsOf : FuncId → Option Flags) :
    (e.refreshCalls flagsOf).Formed w p := by
  refine he.mapSites fun site => ?_
  unfold CallSite.refresh
  split <;> rfl

end Expr

end QueryFunctions
