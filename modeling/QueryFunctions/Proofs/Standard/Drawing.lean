import QueryFunctions.Proofs.Registry.Propagation
import QueryFunctions.Proofs.Standard.Restriction

/-! From a standard that leaves drawing to everyone to one that knows which functions draw. Constant
items stay as they were compiled, so their bodies may still draw; the calls in code whose flags are
up to date tell by these flags whether their targets do. -/
namespace QueryFunctions

/-- The standard with other functions that draw. -/
def Standard.drawing (d : Standard) (draws : FuncId → Prop) : Standard := { d with draws }

variable {d : Standard} {D : FuncId → Prop}

mutual
theorem Value.meets_drawing : (v : Value) → v.Meets d → v.Meets (d.drawing D)
  | .int _, _ | .bool _, _ | .str _, _ => by simp only [Value.Meets]
  | .seq vs, hv => by
    rw [Value.Meets] at hv ⊢
    exact valuesMeet_drawing vs hv
  | .func f, hv => by
    rw [Value.Meets] at hv ⊢
    exact FuncItem.meets_drawing f hv

theorem valuesMeet_drawing : (vs : List Value) → valuesMeet d vs → valuesMeet (d.drawing D) vs
  | [], _ => by simp only [valuesMeet]
  | v :: vs, hv => by
    rw [valuesMeet] at hv ⊢
    exact ⟨Value.meets_drawing v hv.1, valuesMeet_drawing vs hv.2⟩

theorem FuncItem.meets_drawing : (f : FuncItem) → f.Meets d → f.Meets (d.drawing D)
  | ⟨_, _, _, type, annotations, _, code⟩, hf => by
    rw [FuncItem.Meets] at hf ⊢
    exact Code.meets_drawing code hf

theorem Code.meets_drawing : {typed updating : Bool} → (c : Code) → c.Meets d typed updating →
    c.Meets (d.drawing D) typed updating
  | _, _, .builtin _, hc => by
    rw [Code.Meets] at hc ⊢
    exact hc
  | _, _, .closure _ captured body _, hc => by
    rw [Code.Meets] at hc ⊢
    exact ⟨capturedMeet_drawing captured hc.1, Expr.meets_drawing trivial id body hc.2⟩

theorem capturedMeet_drawing : (vs : List (Variable × Value)) → capturedMeet d vs →
    capturedMeet (d.drawing D) vs
  | [], _ => by simp only [capturedMeet]
  | (_, v) :: vs, hv => by
    rw [capturedMeet] at hv ⊢
    exact ⟨Value.meets_drawing v hv.1, capturedMeet_drawing vs hv.2⟩

theorem Expr.meets_drawing : {compiled : Bool} → {a : Allowance} → a.draws → ¬a.flagged →
    (e : Expr) → e.Meets d compiled a → e.Meets (d.drawing D) compiled a
  | _, _, _, _, .value v, he => by
    rw [Expr.Meets] at he ⊢
    exact Value.meets_drawing v he
  | _, _, _, _, .var _, _ | _, _, _, _, .focus _, _ | _, _, _, _, .error _, _ => by
    simp only [Expr.Meets]
  | _, _, hd, hf, .letIn _ _ bound body, he => by
    rw [Expr.Meets] at he ⊢
    exact ⟨he.1, he.2.1, Expr.meets_drawing hd hf bound he.2.2.1,
      Expr.meets_drawing hd hf body he.2.2.2⟩
  | _, _, hd, hf, .branch cond yes no _, he => by
    rw [Expr.Meets] at he ⊢
    exact ⟨Expr.meets_drawing hd hf cond he.1, Expr.meets_drawing hd hf yes he.2.1,
      Expr.meets_drawing hd hf no he.2.2⟩
  | _, _, hd, hf, .arith _ lhs rhs _, he => by
    rw [Expr.Meets] at he ⊢
    exact ⟨Expr.meets_drawing hd hf lhs he.1, Expr.meets_drawing hd hf rhs he.2⟩
  | _, _, hd, hf, .compare _ lhs rhs _, he => by
    rw [Expr.Meets] at he ⊢
    exact ⟨Expr.meets_drawing hd hf lhs he.1, Expr.meets_drawing hd hf rhs he.2⟩
  | _, _, hd, hf, .seq items, he => by
    rw [Expr.Meets] at he ⊢
    exact listMeets_drawing hd hf items he
  | _, _, hd, hf, .treat expr _ _, he => by
    rw [Expr.Meets] at he ⊢
    exact Expr.meets_drawing hd hf expr he
  | _, _, hd, hf, .builtin _ args _, he => by
    rw [Expr.Meets] at he ⊢
    exact ⟨he.1, he.2.1, listMeets_drawing hd hf args he.2.2⟩
  | _, _, hd, hf, .closure c, he => by
    rw [Expr.Meets] at he ⊢
    exact Closure.meets_drawing hd hf c he
  | _, _, hd, hf, .literal _ c, he => by
    rw [Expr.Meets] at he ⊢
    exact ⟨he.1, he.2.1, he.2.2.1, Closure.meets_drawing hd hf c he.2.2.2⟩
  | _, _, hd, hf, .partialApply _ target args, he => by
    rw [Expr.Meets] at he ⊢
    exact ⟨Expr.meets_drawing hd hf target he.1, listMeets_drawing hd hf args he.2⟩
  | _, _, hd, hf, .call _ args, he => by
    rw [Expr.Meets] at he ⊢
    exact ⟨he.1, he.2.1, fun _ => ⟨hd, fun flagged => (hf flagged).elim⟩,
      listMeets_drawing hd hf args he.2.2.2⟩
  | _, _, hd, hf, .dynamicCall _ callee args, he => by
    rw [Expr.Meets] at he ⊢
    exact ⟨he.1, Expr.meets_drawing hd hf callee he.2.1, listMeets_drawing hd hf args he.2.2⟩

theorem listMeets_drawing : {compiled : Bool} → {a : Allowance} → a.draws → ¬a.flagged →
    (es : List Expr) → listMeets d compiled a es → listMeets (d.drawing D) compiled a es
  | _, _, _, _, [], _ => by simp only [listMeets]
  | _, _, hd, hf, e :: es, he => by
    rw [listMeets] at he ⊢
    exact ⟨Expr.meets_drawing hd hf e he.1, listMeets_drawing hd hf es he.2⟩

theorem Closure.meets_drawing : {compiled : Bool} → {a : Allowance} → a.draws → ¬a.flagged →
    {updating : Bool} → (c : Closure) → c.Meets d compiled a updating →
    c.Meets (d.drawing D) compiled a updating
  | _, _, hd, hf, _, ⟨_, _, body, _, _, _, captures, _, _, _⟩, hc => by
    rw [Closure.Meets] at hc ⊢
    have hbody := Expr.meets_drawing (a := .ofClosure d _ _ _) trivial hf body hc.2.2
    exact ⟨hc.1, suppliesMeet_drawing hd hf captures hc.2.1, hbody⟩

theorem suppliesMeet_drawing : {compiled : Bool} → {a : Allowance} → a.draws → ¬a.flagged →
    (es : List (VarId × Expr)) → suppliesMeet d compiled a es →
    suppliesMeet (d.drawing D) compiled a es
  | _, _, _, _, [], _ => by simp only [suppliesMeet]
  | _, _, hd, hf, (_, e) :: es, he => by
    rw [suppliesMeet] at he ⊢
    exact ⟨Expr.meets_drawing hd hf e he.1, suppliesMeet_drawing hd hf es he.2⟩
end

/-- The allowance of code whose calls are flagged, and which may draw only if `P`. -/
def Allowance.drawing (a : Allowance) (P : Prop) : Allowance := { a with draws := P, flagged := True }

section

variable {flagsOf : FuncId → Option Flags}

/-- The functions that draw are known to do so. -/
def FlagsDraws (flagsOf : FuncId → Option Flags) (D : FuncId → Prop) : Prop :=
  ∀ id, D id → ∃ flags, flagsOf id = some flags ∧ flags.ndt = true

theorem CallSite.ndt_of_draws (known : FlagsDraws flagsOf D) {site : CallSite} (draws : D site.target) :
    (site.refresh flagsOf).flags.ndt = true := by
  obtain ⟨flags, found, on⟩ := known _ draws
  simp [refresh, found, Flags.withCallee, on]

mutual
theorem Expr.refreshCalls_flagged (known : FlagsDraws flagsOf D) : {a : Allowance} → (e : Expr) →
    e.Meets d true a →
    (e.mapSites (·.refresh flagsOf) id).Meets (d.drawing D) true (a.drawing True)
  | _, .value v, he => by
    rw [Expr.Meets] at he
    rw [Expr.mapSites, Expr.Meets]
    exact Value.meets_drawing v he
  | _, .var _, _ | _, .focus _, _ | _, .error _, _ => by simp only [Expr.mapSites, Expr.Meets]
  | _, .letIn _ _ bound body, he => by
    rw [Expr.Meets] at he
    rw [Expr.mapSites, Expr.Meets]
    exact ⟨he.1, he.2.1, Expr.refreshCalls_flagged known bound he.2.2.1,
      Expr.refreshCalls_flagged known body he.2.2.2⟩
  | _, .branch cond yes no _, he => by
    rw [Expr.Meets] at he
    rw [Expr.mapSites, Expr.Meets]
    exact ⟨Expr.refreshCalls_flagged known cond he.1, Expr.refreshCalls_flagged known yes he.2.1,
      Expr.refreshCalls_flagged known no he.2.2⟩
  | _, .arith _ lhs rhs _, he | _, .compare _ lhs rhs _, he => by
    rw [Expr.Meets] at he
    rw [Expr.mapSites, Expr.Meets]
    exact ⟨Expr.refreshCalls_flagged known lhs he.1, Expr.refreshCalls_flagged known rhs he.2⟩
  | _, .seq items, he => by
    rw [Expr.Meets] at he
    rw [Expr.mapSites, Expr.Meets]
    exact refreshList_flagged known items he
  | _, .treat expr _ _, he => by
    rw [Expr.Meets] at he
    rw [Expr.mapSites, Expr.Meets]
    exact Expr.refreshCalls_flagged known expr he
  | _, .builtin _ args _, he => by
    rw [Expr.Meets] at he
    rw [Expr.mapSites, Expr.Meets]
    exact ⟨he.1, fun _ => trivial, refreshList_flagged known args he.2.2⟩
  | _, .closure c, he => by
    rw [Expr.Meets] at he
    have same : (c.mapSites (·.refresh flagsOf) id).annotations = c.annotations := by cases c; rfl
    rw [Expr.mapSites, Expr.Meets, same]
    exact Closure.refresh_flagged known c he
  | _, .literal _ c, he => by
    rw [Expr.Meets, if_pos rfl] at he
    have same : (c.mapSites (·.refresh flagsOf) id).annotations = c.annotations := by cases c; rfl
    rw [Expr.mapSites, Expr.Meets, if_pos rfl, same]
    exact ⟨he.1, Closure.captures_mapSites _ _ he.2.1, fun raw => Bool.noConfusion raw,
      Closure.refresh_flagged known c he.2.2.2⟩
  | _, .partialApply _ target args, he => by
    rw [Expr.Meets] at he
    rw [Expr.mapSites, Expr.Meets]
    exact ⟨Expr.refreshCalls_flagged known target he.1, refreshList_flagged known args he.2⟩
  | _, .call site args, he => by
    rw [Expr.Meets] at he
    obtain ⟨mentioned, updates, -, hargs⟩ := he
    have target : (site.refresh flagsOf).target = site.target := by
      unfold CallSite.refresh
      split <;> rfl
    have upd : site.flags.upd = true → (site.refresh flagsOf).flags.upd = true := by
      unfold CallSite.refresh
      split <;> exact id
    rw [Expr.mapSites, Expr.Meets, target]
    refine ⟨mentioned, fun updating => ?_, fun draws => ?_, refreshList_flagged known args hargs⟩
    · exact ⟨(updates updating).1, fun compiled => upd ((updates updating).2 compiled)⟩
    · exact ⟨trivial, fun _ => CallSite.ndt_of_draws known draws⟩
  | _, .dynamicCall _ callee args, he => by
    rw [Expr.Meets] at he
    rw [Expr.mapSites, Expr.Meets]
    exact ⟨he.1, Expr.refreshCalls_flagged known callee he.2.1, refreshList_flagged known args he.2.2⟩

theorem refreshList_flagged (known : FlagsDraws flagsOf D) : {a : Allowance} → (es : List Expr) →
    listMeets d true a es →
    listMeets (d.drawing D) true (a.drawing True) (mapListSites (·.refresh flagsOf) id es)
  | _, [], _ => by simp only [mapListSites, listMeets]
  | _, e :: es, he => by
    rw [listMeets] at he
    rw [mapListSites, listMeets]
    exact ⟨Expr.refreshCalls_flagged known e he.1, refreshList_flagged known es he.2⟩

theorem Closure.refresh_flagged (known : FlagsDraws flagsOf D) : {a : Allowance} → {updating : Bool} →
    (c : Closure) → c.Meets d true a updating →
    (c.mapSites (·.refresh flagsOf) id).Meets (d.drawing D) true (a.drawing True) updating
  | _, _, ⟨_, _, body, _, _, _, captures, _, _, _⟩, hc => by
    rw [Closure.Meets] at hc
    rw [Closure.mapSites, Closure.Meets]
    have hbody := Expr.refreshCalls_flagged known body hc.2.2
    exact ⟨hc.1, refreshSupplies_flagged known captures hc.2.1, hbody⟩

theorem refreshSupplies_flagged (known : FlagsDraws flagsOf D) : {a : Allowance} →
    (es : List (VarId × Expr)) → suppliesMeet d true a es →
    suppliesMeet (d.drawing D) true (a.drawing True) (mapSupplySites (·.refresh flagsOf) id es)
  | _, [], _ => by simp only [mapSupplySites, suppliesMeet]
  | _, (_, e) :: es, he => by
    rw [suppliesMeet] at he
    rw [mapSupplySites, suppliesMeet]
    exact ⟨Expr.refreshCalls_flagged known e he.1, refreshSupplies_flagged known es he.2⟩
end

theorem Expr.refreshCalls_drawing (known : FlagsDraws flagsOf D) {a : Allowance} {P : Prop} {e : Expr}
    (he : e.Meets d true a)
    (on : (e.refreshCalls flagsOf).has .ndt = true → P) :
    (e.refreshCalls flagsOf).Meets (d.drawing D) true (a.drawing P) :=
  Expr.meets_only (a := a.drawing True) trivial _ (Expr.refreshCalls_flagged known e he)
    (fun _ h => h) fun ndt _ => on ndt

end

end QueryFunctions
