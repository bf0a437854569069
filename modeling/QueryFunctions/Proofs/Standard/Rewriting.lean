import QueryFunctions.Compile.Folding
import QueryFunctions.Expr.Sites
import QueryFunctions.Proofs.Standard.Basic

/-! Rewriting that keeps the standard: folded constants, checks put around a body, and call sites
that learn more about their calls. -/
namespace QueryFunctions

variable {d : Standard} {compiled : Bool} {a : Allowance}

namespace Expr

theorem meets_value {v : Value} : (Expr.value v).Meets d compiled a ↔ v.Meets d := by
  simp only [Expr.Meets]

theorem meets_error {e : QueryError} : (Expr.error e).Meets d compiled a := by
  simp only [Expr.Meets]

theorem meets_of_value? {e : Expr} {v : Value} (he : e.Meets d compiled a) (found : e.value? = some v) :
    v.Meets d := by
  cases e with
  | value w =>
    cases found
    exact meets_value.1 he
  | _ => cases found

theorem meets_of_values? {es : List Expr} {vs : List Value} (all : ∀ e ∈ es, e.Meets d compiled a)
    (found : values? es = some vs) : ∀ v ∈ vs, v.Meets d := by
  induction es generalizing vs with
  | nil =>
    cases found
    simp
  | cons e es ih =>
    simp only [values?, List.mapM_cons, Option.bind_eq_bind, Option.pure_def,
      Option.bind_eq_some_iff] at found
    obtain ⟨w, hw, ws, hws, same⟩ := found
    cases same
    have hv := meets_of_value? (all e (by simp)) hw
    exact List.forall_mem_cons.2 ⟨hv, ih (fun x hx => all x (by simp [hx])) hws⟩

theorem meets_ofResult {result : Except QueryError Value} (hv : ∀ v, result = .ok v → v.Meets d) :
    (ofResult result).Meets d compiled a := by
  cases result with
  | ok v => exact meets_value.2 (hv v rfl)
  | error e => exact meets_error

theorem foldBranch_meets {cond yes no : Expr} {span : Span}
    (he : (Expr.branch cond yes no span).Meets d compiled a) :
    (foldBranch cond yes no span).Meets d compiled a := by
  have parts := he
  rw [Expr.Meets] at parts
  unfold foldBranch
  split
  · split
    · exact parts.2.1
    · exact parts.2.2
    · exact he
  · exact he

theorem foldArith_meets {op : ArithOp} {lhs rhs : Expr} {span : Span}
    (he : (Expr.arith op lhs rhs span).Meets d compiled a) :
    (foldArith op lhs rhs span).Meets d compiled a := by
  unfold foldArith
  split
  · exact meets_ofResult fun v => ArithOp.meets_of_apply
  · exact he

theorem foldCompare_meets {op : CompareOp} {lhs rhs : Expr} {span : Span}
    (he : (Expr.compare op lhs rhs span).Meets d compiled a) :
    (foldCompare op lhs rhs span).Meets d compiled a := by
  unfold foldCompare
  split
  · rename_i l r _ _
    refine meets_ofResult fun v computed => ?_
    cases h : op.apply l r span with
    | error e => simp [h, Except.map] at computed
    | ok b =>
      simp only [h, Except.map, Except.ok.injEq] at computed
      subst computed
      simp only [Value.Meets]
  · exact he

theorem foldSeq_meets {items : List Expr} (he : (Expr.seq items).Meets d compiled a) :
    (foldSeq items).Meets d compiled a := by
  unfold foldSeq
  split
  · rename_i vs found
    rw [Expr.Meets, listMeets_iff] at he
    exact meets_value.2 (Value.meets_ofItems (meets_of_values? he found))
  · exact he

theorem foldTreat_meets {e : Expr} {type : SeqType} {span : Span}
    (he : (Expr.treat e type span).Meets d compiled a) :
    (foldTreat e type span).Meets d compiled a := by
  have inner := he
  rw [Expr.Meets] at inner
  unfold foldTreat
  split
  · split
    · exact inner
    · exact meets_error
  · split
    · exact inner
    · exact he

theorem foldBuiltin_meets {function : Builtin} {args : List Expr} {span : Span}
    (he : (Expr.builtin function args span).Meets d compiled a) :
    (foldBuiltin function args span).Meets d compiled a := by
  have ofMap : ∀ {f : FuncItem → Value} {v : Value}, (∀ g, (f g).Meets d) →
      (ofResult ((v.asFunc span).map f)).Meets d compiled a := by
    intro f v hf
    refine meets_ofResult fun w computed => ?_
    cases h : v.asFunc span with
    | error e => simp [h, Except.map] at computed
    | ok g =>
      simp only [h, Except.map, Except.ok.injEq] at computed
      exact computed ▸ hf g
  unfold foldBuiltin
  split
  · rw [meets_value]
    simp only [Value.Meets]
  · exact ofMap fun _ => by simp only [Value.Meets]
  · exact ofMap Value.meets_ofName
  · exact he

theorem coerce_meets {body : Expr} (he : body.Meets d compiled a) (declared : Option SeqType)
    (span : Span) : (body.coerce declared span).Meets d compiled a := by
  unfold coerce
  split
  · split
    · exact he
    · rwa [Expr.Meets]
  · exact he

theorem markTails_meets : (e : Expr) → e.Meets d compiled a → e.markTails.Meets d compiled a
  | .branch _ yes no _ => by
    simp only [markTails, Expr.Meets]
    exact fun he => ⟨he.1, markTails_meets yes he.2.1, markTails_meets no he.2.2⟩
  | .letIn _ _ _ body => by
    simp only [markTails, Expr.Meets]
    exact fun he => ⟨he.1, he.2.1, he.2.2.1, markTails_meets body he.2.2.2⟩
  | .call _ _ => by
    simp only [markTails, Expr.Meets]
    exact fun he => he
  | .dynamicCall _ _ _ => by
    simp only [markTails, Expr.Meets]
    exact fun he => he
  | .value _ | .var _ | .arith _ _ _ _ | .compare _ _ _ _ | .seq _ | .focus _ | .treat _ _ _
  | .builtin _ _ _ | .error _ | .closure _ | .literal _ _ | .partialApply _ _ _ => id

end Expr

theorem Closure.captures_mapSites (f : CallSite → CallSite) (g : DynamicSite → DynamicSite)
    {c : Closure} (none : c.captures = []) : (c.mapSites f g).captures = [] := by
  cases c
  cases none
  rfl

/-- Changes to call sites that neither change what is called nor forget an update. -/
structure KeepsSites (f : CallSite → CallSite) (g : DynamicSite → DynamicSite) : Prop where
  target : ∀ site, (f site).target = site.target
  upd : ∀ site, site.flags.upd = true → (f site).flags.upd = true
  ndt : ∀ site, site.flags.ndt = true → (f site).flags.ndt = true
  updating : ∀ site, (g site).updating = site.updating

section

variable {f : CallSite → CallSite} {g : DynamicSite → DynamicSite}

mutual
theorem Expr.mapSites_meets (h : KeepsSites f g) :
    {a : Allowance} → (e : Expr) → e.Meets d true a → (e.mapSites f g).Meets d true a
  | _, .value _ => id
  | _, .var _ => id
  | _, .focus _ => id
  | _, .error _ => id
  | _, .letIn _ _ value body => by
    simp only [Expr.mapSites, Expr.Meets]
    exact fun he => ⟨he.1, he.2.1, Expr.mapSites_meets h value he.2.2.1,
      Expr.mapSites_meets h body he.2.2.2⟩
  | _, .branch cond yes no _ => by
    simp only [Expr.mapSites, Expr.Meets]
    exact fun he => ⟨Expr.mapSites_meets h cond he.1, Expr.mapSites_meets h yes he.2.1,
      Expr.mapSites_meets h no he.2.2⟩
  | _, .arith _ lhs rhs _ => by
    simp only [Expr.mapSites, Expr.Meets]
    exact fun he => ⟨Expr.mapSites_meets h lhs he.1, Expr.mapSites_meets h rhs he.2⟩
  | _, .compare _ lhs rhs _ => by
    simp only [Expr.mapSites, Expr.Meets]
    exact fun he => ⟨Expr.mapSites_meets h lhs he.1, Expr.mapSites_meets h rhs he.2⟩
  | _, .seq items => by
    simp only [Expr.mapSites, Expr.Meets]
    exact mapListSites_meets h items
  | _, .treat expr _ _ => by
    simp only [Expr.mapSites, Expr.Meets]
    exact Expr.mapSites_meets h expr
  | _, .builtin _ args _ => by
    simp only [Expr.mapSites, Expr.Meets]
    exact fun he => ⟨he.1, he.2.1, mapListSites_meets h args he.2.2⟩
  | _, .closure c => by
    simp only [Expr.mapSites, Expr.Meets]
    have same : (c.mapSites f g).annotations = c.annotations := by cases c; rfl
    rw [same]
    exact Closure.mapSites_meets h c
  | _, .literal _ c => by
    simp only [Expr.mapSites, Expr.Meets, if_true]
    have same : (c.mapSites f g).annotations = c.annotations := by cases c; rfl
    rw [same]
    rintro ⟨mentioned, none, -, hc⟩
    refine ⟨mentioned, ?_, fun raw => Bool.noConfusion raw, Closure.mapSites_meets h c hc⟩
    exact Closure.captures_mapSites f g none
  | _, .partialApply _ target args => by
    simp only [Expr.mapSites, Expr.Meets]
    exact fun he => ⟨Expr.mapSites_meets h target he.1, mapListSites_meets h args he.2⟩
  | _, .call site args => by
    simp only [Expr.mapSites, Expr.Meets, h.target]
    rintro ⟨mentioned, updates, draws, hargs⟩
    refine ⟨mentioned, fun upd => ?_, fun drawn => ?_, mapListSites_meets h args hargs⟩
    · exact ⟨(updates upd).1, fun raw => h.upd site ((updates upd).2 raw)⟩
    · exact ⟨(draws drawn).1, fun flagged => h.ndt site ((draws drawn).2 flagged)⟩
  | _, .dynamicCall _ callee args => by
    simp only [Expr.mapSites, Expr.Meets, h.updating]
    exact fun he => ⟨he.1, Expr.mapSites_meets h callee he.2.1, mapListSites_meets h args he.2.2⟩

theorem mapListSites_meets (h : KeepsSites f g) : {a : Allowance} → (es : List Expr) →
    listMeets d true a es → listMeets d true a (mapListSites f g es)
  | _, [] => id
  | _, e :: es => by
    simp only [mapListSites, listMeets]
    exact fun he => ⟨Expr.mapSites_meets h e he.1, mapListSites_meets h es he.2⟩

theorem Closure.mapSites_meets (h : KeepsSites f g) : {a : Allowance} → {updating : Bool} →
    (c : Closure) → c.Meets d true a updating → (c.mapSites f g).Meets d true a updating
  | _, _, ⟨_, _, body, _, _, _, captures, _, _, _⟩ => by
    simp only [Closure.mapSites, Closure.Meets]
    exact fun hc => ⟨hc.1, mapSupplySites_meets h captures hc.2.1, Expr.mapSites_meets h body hc.2.2⟩

theorem mapSupplySites_meets (h : KeepsSites f g) : {a : Allowance} →
    (es : List (VarId × Expr)) → suppliesMeet d true a es →
    suppliesMeet d true a (mapSupplySites f g es)
  | _, [] => id
  | _, (_, e) :: es => by
    simp only [mapSupplySites, suppliesMeet]
    exact fun he => ⟨Expr.mapSites_meets h e he.1, mapSupplySites_meets h es he.2⟩
end

end

namespace Expr

theorem addOrigins_meets {e : Expr} (he : e.Meets d true a) (origins : List Origin) :
    (e.addOrigins origins).Meets d true a := by
  have sites : KeepsSites id (·.addOrigins origins) :=
    ⟨fun _ => rfl, fun _ => id, fun _ => id, fun _ => rfl⟩
  exact mapSites_meets sites e he

end Expr

end QueryFunctions
