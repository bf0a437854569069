import QueryFunctions.Registry.Flags
import QueryFunctions.Proofs.Expr.Nodes

/-! The order of the functions in a registry. Expressions and values name functions by their places,
so another order renames the functions in all code, the code of function items included. -/
namespace QueryFunctions

mutual
def Expr.retarget (σ : FuncId → FuncId) : Expr → Expr
  | .value v => .value (v.retarget σ)
  | .var ref => .var ref
  | .focus span => .focus span
  | .error e => .error e
  | .letIn id slot value body => .letIn id slot (value.retarget σ) (body.retarget σ)
  | .branch cond yes no span => .branch (cond.retarget σ) (yes.retarget σ) (no.retarget σ) span
  | .arith op lhs rhs span => .arith op (lhs.retarget σ) (rhs.retarget σ) span
  | .compare op lhs rhs span => .compare op (lhs.retarget σ) (rhs.retarget σ) span
  | .seq items => .seq (retargetList σ items)
  | .treat expr type span => .treat (expr.retarget σ) type span
  | .builtin function args span => .builtin function (retargetList σ args) span
  | .closure c => .closure (c.retarget σ)
  | .literal site c => .literal { site with target := σ site.target } (c.retarget σ)
  | .partialApply site target args =>
    .partialApply site (target.retarget σ) (retargetList σ args)
  | .call site args => .call { site with target := σ site.target } (retargetList σ args)
  | .dynamicCall site callee args => .dynamicCall site (callee.retarget σ) (retargetList σ args)
termination_by structural x => x

def retargetList (σ : FuncId → FuncId) : List Expr → List Expr
  | [] => []
  | e :: es => e.retarget σ :: retargetList σ es
termination_by structural x => x

def Closure.retarget (σ : FuncId → FuncId) : Closure → Closure
  | c@⟨_, _, body, _, _, _, captures, _, _, _⟩ =>
    { c with body := body.retarget σ, captures := retargetSupplies σ captures }
termination_by structural x => x

def retargetSupplies (σ : FuncId → FuncId) : List (VarId × Expr) → List (VarId × Expr)
  | [] => []
  | (id, e) :: es => (id, e.retarget σ) :: retargetSupplies σ es
termination_by structural x => x

def Value.retarget (σ : FuncId → FuncId) : Value → Value
  | .int n => .int n
  | .bool b => .bool b
  | .str s => .str s
  | .seq items => .seq (retargetValues σ items)
  | .func item => .func (item.retarget σ)
termination_by structural x => x

def retargetValues (σ : FuncId → FuncId) : List Value → List Value
  | [] => []
  | v :: vs => v.retarget σ :: retargetValues σ vs
termination_by structural x => x

def FuncItem.retarget (σ : FuncId → FuncId) : FuncItem → FuncItem
  | item@⟨_, _, _, _, _, _, code⟩ => { item with code := code.retarget σ }
termination_by structural x => x

def Code.retarget (σ : FuncId → FuncId) : Code → Code
  | .builtin function => .builtin function
  | .closure params captured body scope =>
    .closure params (retargetCaptured σ captured) (body.retarget σ) scope
termination_by structural x => x

def retargetCaptured (σ : FuncId → FuncId) : List (Variable × Value) → List (Variable × Value)
  | [] => []
  | (v, value) :: rest => (v, value.retarget σ) :: retargetCaptured σ rest
termination_by structural x => x
end

def Entry.retarget (σ : FuncId → FuncId) (e : Entry) : Entry :=
  { e with body := e.body.map (·.retarget σ) }

section

variable (σ : FuncId → FuncId)

theorem retargetList_eq (es : List Expr) : retargetList σ es = es.map (·.retarget σ) := by
  induction es with
  | nil => rfl
  | cons e es ih => simp [retargetList, ih]

theorem retargetSupplies_eq (es : List (VarId × Expr)) :
    retargetSupplies σ es = es.map fun q => (q.1, q.2.retarget σ) := by
  induction es with
  | nil => rfl
  | cons q es ih => simp [retargetSupplies, ih]

theorem Closure.retarget_eq (c : Closure) : c.retarget σ =
    { c with
      body := c.body.retarget σ, captures := c.captures.map fun q => (q.1, q.2.retarget σ) } := by
  cases c
  rw [Closure.retarget, retargetSupplies_eq]

namespace Expr

theorem parts_retarget (e : Expr) : (e.retarget σ).parts = e.parts.map (·.retarget σ) := by
  cases e <;> simp [retarget, parts, retargetList_eq, Closure.retarget_eq]

theorem nodes_retarget (e : Expr) : (e.retarget σ).nodes = e.nodes.map (·.retarget σ) := by
  have inside : ∀ p ∈ e.parts, (p.retarget σ).nodes = p.nodes.map (·.retarget σ) :=
    fun p mem => nodes_retarget p
  rw [nodes_eq, nodes_eq e, parts_retarget, List.map_cons, List.flatMap_map, List.map_flatMap,
    List.flatMap_congr inside]
termination_by e.nodes.length
decreasing_by exact length_nodes_lt mem

end Expr

theorem CallSite.refresh_retarget (flagsOf : FuncId → Option Flags) (site : CallSite) :
    CallSite.refresh flagsOf { site with target := σ site.target } =
      { site.refresh (flagsOf ∘ σ) with target := σ site.target } := by
  unfold CallSite.refresh
  dsimp only [Function.comp]
  cases flagsOf (σ site.target) <;> rfl

theorem CallSite.target_refresh (flagsOf : FuncId → Option Flags) (site : CallSite) :
    (site.refresh flagsOf).target = site.target := by
  unfold CallSite.refresh
  split <;> rfl

end

section

variable (σ : FuncId → FuncId) (flagsOf : FuncId → Option Flags)

mutual
theorem Expr.mapSites_retarget : (e : Expr) →
    (e.retarget σ).mapSites (·.refresh flagsOf) id =
      (e.mapSites (·.refresh (flagsOf ∘ σ)) id).retarget σ
  | .value _ | .var _ | .focus _ | .error _ => rfl
  | .letIn _ _ bound body => by
    simp only [Expr.retarget, Expr.mapSites, Expr.mapSites_retarget bound,
      Expr.mapSites_retarget body]
  | .branch cond yes no _ => by
    simp only [Expr.retarget, Expr.mapSites, Expr.mapSites_retarget cond,
      Expr.mapSites_retarget yes, Expr.mapSites_retarget no]
  | .arith _ lhs rhs _ | .compare _ lhs rhs _ => by
    simp only [Expr.retarget, Expr.mapSites, Expr.mapSites_retarget lhs,
      Expr.mapSites_retarget rhs]
  | .seq items => by simp only [Expr.retarget, Expr.mapSites, mapListSites_retarget items]
  | .treat expr _ _ => by simp only [Expr.retarget, Expr.mapSites, Expr.mapSites_retarget expr]
  | .builtin _ args _ => by simp only [Expr.retarget, Expr.mapSites, mapListSites_retarget args]
  | .closure c | .literal _ c => by
    simp only [Expr.retarget, Expr.mapSites, Closure.mapSites_retarget c]
  | .partialApply _ target args => by
    simp only [Expr.retarget, Expr.mapSites, Expr.mapSites_retarget target,
      mapListSites_retarget args]
  | .call site args => by
    simp only [Expr.retarget, Expr.mapSites, CallSite.refresh_retarget σ flagsOf site,
      mapListSites_retarget args, CallSite.target_refresh]
  | .dynamicCall _ callee args => by
    simp only [Expr.retarget, Expr.mapSites, Expr.mapSites_retarget callee,
      mapListSites_retarget args, id]

theorem mapListSites_retarget : (es : List Expr) →
    mapListSites (·.refresh flagsOf) id (retargetList σ es) =
      retargetList σ (mapListSites (·.refresh (flagsOf ∘ σ)) id es)
  | [] => rfl
  | e :: es => by
    simp only [retargetList, mapListSites, Expr.mapSites_retarget e, mapListSites_retarget es]

theorem Closure.mapSites_retarget : (c : Closure) →
    (c.retarget σ).mapSites (·.refresh flagsOf) id =
      (c.mapSites (·.refresh (flagsOf ∘ σ)) id).retarget σ
  | ⟨_, _, body, _, _, _, captures, _, _, _⟩ => by
    simp only [Closure.retarget, Closure.mapSites, Expr.mapSites_retarget body,
      mapSupplySites_retarget captures]

theorem mapSupplySites_retarget : (es : List (VarId × Expr)) →
    mapSupplySites (·.refresh flagsOf) id (retargetSupplies σ es) =
      retargetSupplies σ (mapSupplySites (·.refresh (flagsOf ∘ σ)) id es)
  | [] => rfl
  | (_, e) :: es => by
    simp only [retargetSupplies, mapSupplySites, Expr.mapSites_retarget e,
      mapSupplySites_retarget es]
end

theorem Expr.refreshCalls_retarget (e : Expr) :
    (e.retarget σ).refreshCalls flagsOf = (e.refreshCalls (flagsOf ∘ σ)).retarget σ :=
  e.mapSites_retarget σ flagsOf

end

end QueryFunctions
