import QueryFunctions.Registry.Flags
import QueryFunctions.Proofs.Compile.State
import QueryFunctions.Proofs.Standard.Rewriting

/-! Spreading flags along calls. A pass turns flags on and none off, and there are two flags for each
function, so the passes come to an end. Then a caller has all flags of its callees, the flags of a function
cover those of its body, and the calls in all compiled bodies are brought up to date. -/
namespace QueryFunctions

namespace Flags

/-- Non-determinism and focus dependence may be turned on, all else is the same. -/
structure Grows (f g : Flags) : Prop where
  upd : g.upd = f.upd
  ndt : f.ndt = true → g.ndt = true
  ctx : f.ctx = true → g.ctx = true

theorem Grows.refl (f : Flags) : f.Grows f := ⟨rfl, id, id⟩

theorem Grows.trans {f g h : Flags} (first : f.Grows g) (second : g.Grows h) : f.Grows h :=
  ⟨second.upd.trans first.upd, fun on => second.ndt (first.ndt on),
    fun on => second.ctx (first.ctx on)⟩

theorem Grows.antisymm {f g : Flags} (first : f.Grows g) (second : g.Grows f) : f = g := by
  obtain ⟨fu, fn, fc⟩ := f
  obtain ⟨gu, gn, gc⟩ := g
  have upd := first.upd
  have ndt := Bool.eq_iff_iff.2 ⟨first.ndt, second.ndt⟩
  have ctx := Bool.eq_iff_iff.2 ⟨first.ctx, second.ctx⟩
  simp_all

theorem grows_withCallee (f callee : Flags) : f.Grows (f.withCallee callee) :=
  ⟨rfl, fun on => by simp [withCallee, on], fun on => by simp [withCallee, on]⟩

theorem Grows.contains {f g : Flags} (h : f.Grows g) {flag : Flag} (on : f.contains flag = true) :
    g.contains flag = true := by
  cases flag with
  | upd => exact h.upd.trans on
  | ndt => exact h.ndt on
  | ctx => exact h.ctx on

theorem contains_withCallee {flag : Flag} (spreads : flag ≠ .upd) (f callee : Flags) :
    (f.withCallee callee).contains flag = (f.contains flag || callee.contains flag) := by
  cases flag with
  | upd => exact absurd rfl spreads
  | ndt | ctx => rfl

def off (f : Flags) : Nat := (if f.ndt then 0 else 1) + (if f.ctx then 0 else 1)

theorem off_le (f : Flags) : f.off ≤ 2 := by
  unfold off
  split <;> split <;> omega

theorem Grows.off_lt {f g : Flags} (h : f.Grows g) (changed : g ≠ f) : g.off < f.off := by
  have upd := h.upd
  have ndt := h.ndt
  have ctx := h.ctx
  obtain ⟨fu, fn, fc⟩ := f
  obtain ⟨gu, gn, gc⟩ := g
  cases fn <;> cases gn <;> cases fc <;> cases gc <;> simp_all [off]

end Flags

namespace Registry

theorem flagAt_set (flags : List Flags) (i : Nat) (f : Flags) (id : FuncId) :
    flagAt (flags.set i f) id = if i = id.index ∧ i < flags.length then f else flagAt flags id := by
  unfold flagAt
  rw [List.getElem?_set]
  by_cases same : i = id.index
  · by_cases bound : i < flags.length
    · simp [same, same ▸ bound]
    · simp [same, same ▸ bound]
  · simp [same]

structure FlagsGrow (flags next : List Flags) : Prop where
  length : next.length = flags.length
  each : ∀ id, (flagAt flags id).Grows (flagAt next id)

namespace FlagsGrow

theorem refl (flags : List Flags) : FlagsGrow flags flags := ⟨rfl, fun _ => .refl _⟩

theorem trans {flags next last : List Flags} (first : FlagsGrow flags next)
    (second : FlagsGrow next last) : FlagsGrow flags last :=
  ⟨second.length.trans first.length, fun id => (first.each id).trans (second.each id)⟩

theorem tail {f g : Flags} {flags next : List Flags} (h : FlagsGrow (f :: flags) (g :: next)) :
    FlagsGrow flags next :=
  ⟨by simpa using h.length, fun id => h.each ⟨id.index + 1⟩⟩

theorem antisymm {flags next : List Flags} (first : FlagsGrow flags next)
    (second : FlagsGrow next flags) : next = flags := by
  refine List.ext_getElem first.length fun i hi hi' => ?_
  have same := (second.each ⟨i⟩).antisymm (first.each ⟨i⟩)
  simpa [flagAt, hi, hi'] using same

end FlagsGrow

def allOff (flags : List Flags) : Nat := flags.foldr (fun f n => f.off + n) 0

theorem allOff_le (flags : List Flags) : allOff flags ≤ 2 * flags.length := by
  induction flags with
  | nil => exact Nat.le_refl _
  | cons f flags ih =>
    have := f.off_le
    simp only [allOff, List.foldr_cons, List.length_cons] at ih ⊢
    omega

theorem FlagsGrow.allOff_lt : {flags next : List Flags} → FlagsGrow flags next → next ≠ flags →
    allOff next < allOff flags
  | [], next, h, changed => absurd (List.length_eq_zero_iff.1 h.length) changed
  | f :: flags, [], h, _ => by
    have := h.length
    simp at this
  | f :: flags, g :: next, h, changed => by
    have head : f.Grows g := h.each ⟨0⟩
    simp only [allOff, List.foldr_cons]
    by_cases same : g = f
    · have rest := h.tail.allOff_lt fun eq => changed (by rw [same, eq])
      simp only [allOff] at rest
      rw [same]
      omega
    · have lt := head.off_lt same
      by_cases eq : next = flags
      · rw [eq]
        omega
      · have rest := h.tail.allOff_lt eq
        simp only [allOff] at rest
        omega

def gather (flags : List Flags) (caller : FuncId) (callees : List FuncId) : Flags :=
  callees.foldl (fun f callee => f.withCallee (flagAt flags callee)) (flagAt flags caller)

theorem grows_gather (flags : List Flags) (callees : List FuncId) (start : Flags) :
    start.Grows (callees.foldl (fun f callee => f.withCallee (flagAt flags callee)) start) := by
  induction callees generalizing start with
  | nil => exact .refl _
  | cons callee callees ih => exact (start.grows_withCallee _).trans (ih _)

theorem contains_gather {flag : Flag} (spreads : flag ≠ .upd) {flags : List Flags}
    {callees : List FuncId} {start : Flags} :
    (callees.foldl (fun f callee => f.withCallee (flagAt flags callee)) start).contains flag = true ↔
      start.contains flag = true ∨ ∃ callee ∈ callees, (flagAt flags callee).contains flag = true := by
  induction callees generalizing start with
  | nil => simp
  | cons callee callees ih =>
    rw [List.foldl_cons, ih, Flags.contains_withCallee spreads]
    simp [or_assoc]

theorem flagsGrow_set (flags : List Flags) (caller : FuncId) (callees : List FuncId) :
    FlagsGrow flags (flags.set caller.index (gather flags caller callees)) := by
  refine ⟨List.length_set .., fun id => ?_⟩
  rw [flagAt_set]
  split
  · rename_i h
    have same : caller = id := by cases caller; cases id; cases h.1; rfl
    exact same ▸ grows_gather flags callees _
  · exact .refl _

theorem flagsGrow_spread (edges : List (FuncId × List FuncId)) (flags : List Flags) :
    FlagsGrow flags (spread edges flags) := by
  induction edges generalizing flags with
  | nil => exact .refl _
  | cons edge edges ih => exact (flagsGrow_set flags edge.1 edge.2).trans (ih _)

theorem contains_of_spread_eq {flag : Flag} (spreads : flag ≠ .upd)
    {edges : List (FuncId × List FuncId)} {flags : List Flags}
    (fixed : spread edges flags = flags) {caller callee : FuncId} {callees : List FuncId}
    (edge : (caller, callees) ∈ edges) (mem : callee ∈ callees) (bound : caller.index < flags.length)
    (on : (flagAt flags callee).contains flag = true) :
    (flagAt flags caller).contains flag = true := by
  induction edges with
  | nil => cases edge
  | cons first edges ih =>
    -- No step of the pass changes anything either, as no later step could undo it.
    have unchanged : flags.set first.1.index (gather flags first.1 first.2) = flags := by
      refine (flagsGrow_set flags first.1 first.2).antisymm ?_
      have rest := flagsGrow_spread edges (flags.set first.1.index (gather flags first.1 first.2))
      have whole : spread edges (flags.set first.1.index (gather flags first.1 first.2)) = flags :=
        fixed
      rwa [whole] at rest
    rcases List.mem_cons.1 edge with rfl | edge
    · have gathered : flagAt flags caller = gather flags caller callees := by
        have at_caller := congrArg (flagAt · caller) unchanged
        simp only [flagAt_set, bound, and_self, if_true] at at_caller
        exact at_caller.symm
      rw [gathered]
      exact (contains_gather spreads).2 (.inr ⟨callee, mem, on⟩)
    · refine ih ?_ edge
      have whole : spread edges (flags.set first.1.index (gather flags first.1 first.2)) = flags :=
        fixed
      rwa [unchanged] at whole

theorem flagsGrow_saturate (edges : List (FuncId × List FuncId)) (passes : Nat)
    (flags : List Flags) : FlagsGrow flags (saturate edges passes flags) := by
  induction passes generalizing flags with
  | zero => exact .refl _
  | succ passes ih =>
    unfold saturate
    dsimp only
    split
    · exact .refl _
    · exact (flagsGrow_spread edges flags).trans (ih _)

theorem spread_saturate (edges : List (FuncId × List FuncId)) {passes : Nat} {flags : List Flags}
    (enough : allOff flags < passes) :
    spread edges (saturate edges passes flags) = saturate edges passes flags := by
  induction passes generalizing flags with
  | zero => omega
  | succ passes ih =>
    unfold saturate
    dsimp only
    split
    · assumption
    · rename_i changed
      have lt := (flagsGrow_spread edges flags).allOff_lt changed
      exact ih (by omega)

theorem spread_propagatedFlags (r : Registry) :
    spread r.callEdges r.propagatedFlags = r.propagatedFlags := by
  refine spread_saturate r.callEdges ?_
  have bound := allOff_le (r.entries.map (·.flags))
  rw [List.length_map] at bound
  omega

theorem flagsGrow_propagatedFlags (r : Registry) :
    FlagsGrow (r.entries.map (·.flags)) r.propagatedFlags :=
  flagsGrow_saturate r.callEdges _ _

end Registry

section

variable {flagsOf : FuncId → Option Flags}

/-- Some call in the list of nodes is of a function that the flags call non-deterministic. -/
def CallsNdt (flagsOf : FuncId → Option Flags) (nodes : List Expr) : Prop :=
  ∃ site args flags, Expr.call site args ∈ nodes ∧ flagsOf site.target = some flags ∧ flags.ndt = true

theorem CallsNdt.mono {nodes more : List Expr} (h : CallsNdt flagsOf nodes) (sub : nodes ⊆ more) :
    CallsNdt flagsOf more := by
  obtain ⟨site, args, flags, mem, rest⟩ := h
  exact ⟨site, args, flags, sub mem, rest⟩

theorem CallSite.ndt_refresh {site : CallSite} (on : (site.refresh flagsOf).flags.ndt = true) :
    site.flags.ndt = true ∨ ∃ flags, flagsOf site.target = some flags ∧ flags.ndt = true := by
  unfold CallSite.refresh at on
  split at on
  · rename_i flags known
    simp only [Flags.withCallee, Bool.or_eq_true] at on
    exact on.imp id fun on => ⟨flags, known, on⟩
  · exact .inl on

mutual
theorem Expr.ndt_refreshCalls : (e : Expr) →
    (e.mapSites (·.refresh flagsOf) id).has .ndt = true →
    e.has .ndt = true ∨ CallsNdt flagsOf e.nodes
  | .value _, on | .var _, on | .focus _, on | .error _, on | .literal _ _, on => .inl on
  | .letIn _ _ bound body, on => by
    simp only [Expr.mapSites, Expr.has, Bool.or_eq_true, Expr.nodes] at on ⊢
    rcases on with on | on
    · exact (Expr.ndt_refreshCalls bound on).imp .inl (·.mono (by simp))
    · exact (Expr.ndt_refreshCalls body on).imp .inr (·.mono (by simp))
  | .branch cond yes no _, on => by
    simp only [Expr.mapSites, Expr.has, Bool.or_eq_true, Expr.nodes] at on ⊢
    rcases on with (on | on) | on
    · exact (Expr.ndt_refreshCalls cond on).imp (.inl ∘ .inl) (·.mono (by simp))
    · refine (Expr.ndt_refreshCalls yes on).imp (.inl ∘ .inr) (·.mono fun _ mem => ?_)
      exact List.mem_cons_of_mem _ (List.mem_append_right _ (List.mem_append_left _ mem))
    · refine (Expr.ndt_refreshCalls no on).imp .inr (·.mono fun _ mem => ?_)
      exact List.mem_cons_of_mem _ (List.mem_append_right _ (List.mem_append_right _ mem))
  | .arith _ lhs rhs _, on => by
    simp only [Expr.mapSites, Expr.has, Bool.or_eq_true, Expr.nodes] at on ⊢
    rcases on with on | on
    · exact (Expr.ndt_refreshCalls lhs on).imp .inl (·.mono (by simp))
    · exact (Expr.ndt_refreshCalls rhs on).imp .inr (·.mono (by simp))
  | .compare _ lhs rhs _, on => by
    simp only [Expr.mapSites, Expr.has, Bool.or_eq_true, Expr.nodes] at on ⊢
    rcases on with on | on
    · exact (Expr.ndt_refreshCalls lhs on).imp .inl (·.mono (by simp))
    · exact (Expr.ndt_refreshCalls rhs on).imp .inr (·.mono (by simp))
  | .seq items, on => by
    simp only [Expr.mapSites, Expr.has, Expr.nodes] at on ⊢
    exact (ndt_refreshList items on).imp_right (·.mono (by simp))
  | .treat expr _ _, on => by
    simp only [Expr.mapSites, Expr.has, Expr.nodes] at on ⊢
    exact (Expr.ndt_refreshCalls expr on).imp_right (·.mono (by simp))
  | .builtin _ args _, on => by
    simp only [Expr.mapSites, Expr.has, Bool.or_eq_true, Expr.nodes] at on ⊢
    rcases on with on | on
    · exact .inl (.inl on)
    · exact (ndt_refreshList args on).imp .inr (·.mono (by simp))
  | .closure c, on => by
    simp only [Expr.mapSites, Expr.has, Expr.nodes] at on ⊢
    exact (Closure.ndt_refresh c on).imp_right (·.mono (by simp))
  | .partialApply _ target args, on => by
    simp only [Expr.mapSites, Expr.has, Bool.or_eq_true, Expr.nodes] at on ⊢
    rcases on with on | on
    · exact (Expr.ndt_refreshCalls target on).imp .inl (·.mono (by simp))
    · exact (ndt_refreshList args on).imp .inr (·.mono (by simp))
  | .call site args, on => by
    simp only [Expr.mapSites, Expr.has, Bool.or_eq_true, Expr.nodes] at on ⊢
    rcases on with on | on
    · refine (CallSite.ndt_refresh on).imp .inl fun ⟨flags, known, ndt⟩ => ?_
      exact ⟨site, args, flags, by simp, known, ndt⟩
    · exact (ndt_refreshList args on).imp .inr (·.mono (by simp))
  | .dynamicCall site callee args, on => by
    simp only [Expr.mapSites, Expr.has, Bool.or_eq_true, Expr.nodes] at on ⊢
    rcases on with (on | on) | on
    · cases on
    · exact (Expr.ndt_refreshCalls callee on).imp (.inl ∘ .inr) (·.mono (by simp))
    · exact (ndt_refreshList args on).imp .inr (·.mono (by simp))

theorem ndt_refreshList : (es : List Expr) →
    anyHas .ndt (mapListSites (·.refresh flagsOf) id es) = true →
    anyHas .ndt es = true ∨ CallsNdt flagsOf (listNodes es)
  | [], on => .inl on
  | e :: es, on => by
    simp only [mapListSites, anyHas, Bool.or_eq_true, listNodes] at on ⊢
    rcases on with on | on
    · exact (Expr.ndt_refreshCalls e on).imp .inl (·.mono (by simp))
    · exact (ndt_refreshList es on).imp .inr (·.mono (by simp))

theorem Closure.ndt_refresh : (c : Closure) →
    (c.mapSites (·.refresh flagsOf) id).has .ndt = true →
    c.has .ndt = true ∨ CallsNdt flagsOf c.nodes
  | ⟨_, _, _, _, _, _, captures, _, _, _⟩, on => by
    simp only [Closure.mapSites, Closure.has, Closure.nodes] at on ⊢
    exact (ndt_refreshSupplies captures on).imp_right (·.mono (by simp))

theorem ndt_refreshSupplies : (es : List (VarId × Expr)) →
    anySupplyHas .ndt (mapSupplySites (·.refresh flagsOf) id es) = true →
    anySupplyHas .ndt es = true ∨ CallsNdt flagsOf (supplyNodes es)
  | [], on => .inl on
  | (_, e) :: es, on => by
    simp only [mapSupplySites, anySupplyHas, Bool.or_eq_true, supplyNodes] at on ⊢
    rcases on with on | on
    · exact (Expr.ndt_refreshCalls e on).imp .inl (·.mono (by simp))
    · exact (ndt_refreshSupplies es on).imp .inr (·.mono (by simp))
end

end

theorem Expr.mem_callees {e : Expr} {site : CallSite} {args : List Expr}
    (mem : Expr.call site args ∈ e.nodes) : site.target ∈ e.callees :=
  List.mem_eraseDups.2 (List.mem_filterMap.2 ⟨_, mem, rfl⟩)

namespace Registry

theorem mem_callEdges {r : Registry} {id : FuncId} {e : Entry} {body : Expr}
    (found : r.find? id = some e) (compiled : e.stage = .compiled) (present : e.body = some body) :
    (id, body.callees) ∈ r.callEdges := by
  refine List.mem_filterMap.2 ⟨(e, id.index), List.mem_zipIdx_iff_getElem?.2 found, ?_⟩
  simp [compiled, present]

theorem find?_propagateFlags (r : Registry) (id : FuncId) :
    r.propagateFlags.find? id = (r.find? id).map fun e =>
      { e with
        flags := flagAt r.propagatedFlags id
        body := if (r.callEdges.map Prod.fst).contains id then
            e.body.map (·.refreshCalls fun id => r.propagatedFlags[id.index]?)
          else e.body } := by
  unfold propagateFlags find?
  simp only [List.getElem?_map, List.getElem?_zipIdx, Option.map_map]
  cases r.entries[id.index]? <;> simp

end Registry

end QueryFunctions
