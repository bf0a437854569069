import QueryFunctions.Expr.Static

/-! Changes to call sites that leave the shape of the code alone. -/
namespace QueryFunctions

mutual
/-- Rewrites the record of every call, in closures and literals as well. -/
def Expr.mapSites (f : CallSite → CallSite) (g : DynamicSite → DynamicSite) : Expr → Expr
  | .value v => .value v
  | .var ref => .var ref
  | .focus span => .focus span
  | .error e => .error e
  | .letIn id slot value body => .letIn id slot (value.mapSites f g) (body.mapSites f g)
  | .branch cond yes no span =>
    .branch (cond.mapSites f g) (yes.mapSites f g) (no.mapSites f g) span
  | .arith op lhs rhs span => .arith op (lhs.mapSites f g) (rhs.mapSites f g) span
  | .compare op lhs rhs span => .compare op (lhs.mapSites f g) (rhs.mapSites f g) span
  | .seq items => .seq (mapListSites f g items)
  | .treat expr type span => .treat (expr.mapSites f g) type span
  | .builtin function args span => .builtin function (mapListSites f g args) span
  | .closure c => .closure (c.mapSites f g)
  | .literal site c => .literal site (c.mapSites f g)
  | .partialApply site target args =>
    .partialApply site (target.mapSites f g) (mapListSites f g args)
  | .call site args => .call (f site) (mapListSites f g args)
  | .dynamicCall site callee args =>
    .dynamicCall (g site) (callee.mapSites f g) (mapListSites f g args)
termination_by structural x => x

def mapListSites (f : CallSite → CallSite) (g : DynamicSite → DynamicSite) :
    List Expr → List Expr
  | [] => []
  | e :: es => e.mapSites f g :: mapListSites f g es
termination_by structural x => x

def Closure.mapSites (f : CallSite → CallSite) (g : DynamicSite → DynamicSite) :
    Closure → Closure
  | c@⟨_, _, body, _, _, _, captures, _, _, _⟩ =>
    { c with body := body.mapSites f g, captures := mapSupplySites f g captures }
termination_by structural x => x

def mapSupplySites (f : CallSite → CallSite) (g : DynamicSite → DynamicSite) :
    List (VarId × Expr) → List (VarId × Expr)
  | [] => []
  | (id, e) :: es => (id, e.mapSites f g) :: mapSupplySites f g es
termination_by structural x => x
end

namespace DynamicSite

/-- `site` with more closures that its call comes from. -/
def addOrigins (site : DynamicSite) (origins : List Origin) : DynamicSite :=
  { site with inlinedFrom := origins.foldl (fun known o =>
      if known.contains o then known else known ++ [o]) site.inlinedFrom }

theorem addOrigins_nil (site : DynamicSite) : site.addOrigins [] = site := rfl

end DynamicSite

namespace CallSite

/-- `site` with the properties that its target turned out to have. -/
def refresh (flagsOf : FuncId → Option Flags) (site : CallSite) : CallSite :=
  match flagsOf site.target with
  | some flags => { site with flags := site.flags.withCallee flags }
  | none => site

end CallSite

namespace Expr

/-- Tells every dynamic call that it comes from the expansion of these closures. -/
def addOrigins (origins : List Origin) : Expr → Expr :=
  mapSites id (·.addOrigins origins)

def refreshCalls (flagsOf : FuncId → Option Flags) : Expr → Expr :=
  mapSites (·.refresh flagsOf) id

def markTails : Expr → Expr
  | .branch cond yes no span => .branch cond yes.markTails no.markTails span
  | .letIn id slot v body => .letIn id slot v body.markTails
  | .call site args => .call { site with tail := true } args
  | .dynamicCall site callee args => .dynamicCall { site with tail := true } callee args
  | e => e
termination_by structural x => x

theorem markTails_markTails : (e : Expr) → e.markTails.markTails = e.markTails
  | .branch _ yes no _ => by
    simp only [markTails, markTails_markTails yes, markTails_markTails no]
  | .letIn _ _ _ body => by simp only [markTails, markTails_markTails body]
  | .call _ _ | .dynamicCall _ _ _ => rfl
  | .value _ | .var _ | .arith _ _ _ _ | .compare _ _ _ _ | .seq _ | .focus _ | .treat _ _ _
  | .builtin _ _ _ | .error _ | .closure _ | .literal _ _ | .partialApply _ _ _ => rfl

end Expr

end QueryFunctions
