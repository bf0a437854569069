import QueryFunctions.Compile.Expansion
import QueryFunctions.Proofs.Form.Rewriting
import QueryFunctions.Proofs.Law.Supplied
import Mathlib.Data.List.Basic
import Mathlib.Algebra.BigOperators.Group.Multiset.Basic
import Mathlib.Algebra.Order.BigOperators.Group.Multiset
import Mathlib.Data.Finset.Card
import Mathlib.Data.Multiset.DershowitzManna
import Mathlib.Data.Prod.Lex

/-! The weight of code: what expansion may still make of it. Weights are multisets of ranks, and one is
below another in the order of Dershowitz and Manna, so a node may give way to any number of nodes of lower
ranks. The rank of a dynamic call counts the closures of the unit that it does not come from yet; among
calls of constant functions that have as many, it is the size of the function that decides, which is what
partial applications make smaller. -/
namespace QueryFunctions

/-- What an expression is, as far as expansion goes by it. -/
inductive Kind where
  | value (value : Value)
  | var (id : VarId)
  | letIn
  | closure (origin : Origin) (captures : Nat) (compiled : Bool)
  | call (target : FuncId)
  /-- A dynamic call, and the item that it calls if that is known. -/
  | dynamicCall (inlinedFrom : List Origin) (item? : Option FuncItem)
  | plain

namespace Kind

def addOrigins (origins : List Origin) : Kind → Kind
  | .dynamicCall inlinedFrom item? =>
    .dynamicCall (origins.foldl (fun known o => if known.contains o then known else known ++ [o])
      inlinedFrom) item?
  | k => k

end Kind

namespace Expr

def item? : Expr → Option FuncItem
  | .value (.func f) => some f
  | _ => none

def kind : Expr → Kind
  | .value v => .value v
  | .var ref => .var ref.id
  | .letIn _ _ _ _ => .letIn
  | .closure c | .literal _ c => .closure c.origin c.captures.length c.compiled
  | .call site _ => .call site.target
  | .dynamicCall site callee _ => .dynamicCall site.inlinedFrom callee.item?
  | .branch _ _ _ _ | .arith _ _ _ _ | .compare _ _ _ _ | .seq _ | .focus _ | .treat _ _ _
  | .builtin _ _ _ | .error _ | .partialApply _ _ _ => .plain

def kinds (e : Expr) : List Kind := e.nodes.map kind

theorem kinds_eq (e : Expr) : e.kinds = e.kind :: e.parts.flatMap kinds := by
  unfold kinds
  rw [nodes_eq, List.map_cons, List.map_flatMap]

theorem mem_kinds_iff {e : Expr} {k : Kind} :
    k ∈ e.kinds ↔ k = e.kind ∨ ∃ p ∈ e.parts, k ∈ p.kinds := by
  rw [kinds_eq, List.mem_cons, List.mem_flatMap]

theorem kinds_subset_of_mem_parts {e p : Expr} (mem : p ∈ e.parts) : p.kinds ⊆ e.kinds :=
  fun _ hk => mem_kinds_iff.2 (.inr ⟨p, mem, hk⟩)

theorem references_iff {e : Expr} {id : VarId} : e.references id = true ↔ Kind.var id ∈ e.kinds := by
  unfold references kinds
  rw [Expr.anyNode_eq, List.any_eq_true, List.mem_map]
  refine exists_congr fun n => and_congr_right fun _ => ?_
  cases n <;> simp [isReferenceTo, kind]

section addOrigins

variable (origins : List Origin)

theorem item?_addOrigins (e : Expr) : (e.addOrigins origins).item? = e.item? := by
  cases e <;> rfl

theorem parts_addOrigins (e : Expr) :
    (e.addOrigins origins).parts = e.parts.map (addOrigins origins) := parts_mapSites _ _ e

theorem kind_addOrigins (e : Expr) : (e.addOrigins origins).kind = e.kind.addOrigins origins := by
  cases e with
  | closure c | literal _ c => simp [addOrigins, mapSites, kind, Kind.addOrigins, Closure.mapSites_eq]
  | dynamicCall site callee args =>
    change Kind.dynamicCall _ (callee.addOrigins origins).item? = _
    rw [item?_addOrigins]
    rfl
  | _ => rfl

theorem kinds_addOrigins (e : Expr) :
    (e.addOrigins origins).kinds = e.kinds.map (Kind.addOrigins origins) := by
  have inside : ∀ p ∈ e.parts, (p.addOrigins origins).kinds = p.kinds.map (Kind.addOrigins origins) :=
    fun p mem => kinds_addOrigins p
  rw [kinds_eq, kinds_eq e, kind_addOrigins, parts_addOrigins, List.map_cons, List.flatMap_map,
    List.map_flatMap, List.flatMap_congr inside]
termination_by e.nodes.length
decreasing_by exact length_nodes_lt mem

end addOrigins

theorem kinds_markTails : (e : Expr) → e.markTails.kinds = e.kinds
  | .branch cond yes no span => by
    rw [markTails, kinds_eq, kinds_eq (.branch cond yes no span)]
    simp [parts, kind, kinds_markTails yes, kinds_markTails no]
  | .letIn id slot bound body => by
    rw [markTails, kinds_eq, kinds_eq (.letIn id slot bound body)]
    simp [parts, kind, kinds_markTails body]
  | .call site args => by
    rw [markTails, kinds_eq, kinds_eq (.call site args)]
    rfl
  | .dynamicCall site callee args => by
    rw [markTails, kinds_eq, kinds_eq (.dynamicCall site callee args)]
    rfl
  | .value _ | .var _ | .arith _ _ _ _ | .compare _ _ _ _ | .seq _ | .focus _ | .treat _ _ _
  | .builtin _ _ _ | .error _ | .closure _ | .literal _ _ | .partialApply _ _ _ => rfl

theorem kinds_keepTail (tail : Bool) (e : Expr) : (Compile.keepTail tail e).kinds = e.kinds := by
  unfold Compile.keepTail
  split
  · exact e.kinds_markTails
  · rfl

end Expr

abbrev Weight := Multiset (ℕ ×ₗ ℕ)

namespace Weight

variable {M N K M' N' : Weight} {z : ℕ ×ₗ ℕ}

/-- `M` comes of `N` when some elements give way to others that are less. -/
def Lighter (M N : Weight) : Prop := ∃ X Y Z, M = X + Y ∧ N = X + Z ∧ ∀ y ∈ Y, ∃ z ∈ Z, y < z

theorem lighter_iff : M.Lighter N ↔ M = N ∨ M.IsDershowitzMannaLT N := by
  constructor
  · rintro ⟨X, Y, Z, rfl, rfl, less⟩
    rcases eq_or_ne Z ∅ with rfl | some
    · have none : Y = 0 := Multiset.eq_zero_of_forall_notMem fun y mem =>
        let ⟨z, among, _⟩ := less y mem
        Multiset.notMem_zero z among
      exact .inl (by rw [none]; rfl)
    · exact .inr ⟨X, Y, Z, some, rfl, rfl, less⟩
  · rintro (rfl | ⟨X, Y, Z, -, rfl, rfl, less⟩)
    · exact ⟨M, 0, 0, by simp, by simp, by simp⟩
    · exact ⟨X, Y, Z, rfl, rfl, less⟩

namespace Lighter

theorem refl (M : Weight) : M.Lighter M := lighter_iff.2 (.inl rfl)

theorem of_le (h : M ≤ N) : M.Lighter N := by
  obtain ⟨K, rfl⟩ := Multiset.le_iff_exists_add.1 h
  exact ⟨M, 0, K, by simp, rfl, by simp⟩

theorem trans_lt (h : M.Lighter N) (less : N.IsDershowitzMannaLT K) : M.IsDershowitzMannaLT K := by
  rcases lighter_iff.1 h with rfl | lt
  · exact less
  · exact lt.trans less

theorem trans (h : M.Lighter N) (h' : N.Lighter K) : M.Lighter K := by
  rcases lighter_iff.1 h' with rfl | less
  · exact h
  · exact lighter_iff.2 (.inr (h.trans_lt less))

theorem add (h : M.Lighter N) (h' : M'.Lighter N') : (M + M').Lighter (N + N') := by
  obtain ⟨X, Y, Z, rfl, rfl, less⟩ := h
  obtain ⟨X', Y', Z', rfl, rfl, less'⟩ := h'
  refine ⟨X + X', Y + Y', Z + Z', add_add_add_comm .., add_add_add_comm .., fun y mem => ?_⟩
  rcases Multiset.mem_add.1 mem with mem | mem
  · obtain ⟨z, among, lt⟩ := less y mem
    exact ⟨z, Multiset.mem_add.2 (.inl among), lt⟩
  · obtain ⟨z, among, lt⟩ := less' y mem
    exact ⟨z, Multiset.mem_add.2 (.inr among), lt⟩

theorem singleton {y z : ℕ ×ₗ ℕ} (h : y ≤ z) : Lighter {y} {z} := by
  rcases h.eq_or_lt with rfl | lt
  · exact .refl _
  · exact ⟨0, {y}, {z}, by simp, by simp, by simpa using lt⟩

end Lighter

theorem replaced_lt (kept : M ≤ N) (less : ∀ y ∈ K, y < z) :
    (K + M).IsDershowitzMannaLT ({z} + N) := by
  obtain ⟨left, rfl⟩ := Multiset.le_iff_exists_add.1 kept
  refine ⟨M, K, {z} + left, ?_, add_comm K M, add_left_comm .., fun y mem => ?_⟩
  · exact fun none => absurd (congrArg Multiset.card none) (by simp)
  · exact ⟨z, Multiset.mem_add.2 (.inl (Multiset.mem_singleton_self z)), less y mem⟩

end Weight

/-- The least rank, that of a let and of each expression that a closure captures. -/
def bottomRank : ℕ ×ₗ ℕ := toLex (0, 0)

/-- The rank of a dynamic call in a unit with those closures. -/
noncomputable def callRank (origins : Finset Origin) (inlinedFrom : List Origin) : Option FuncItem → ℕ ×ₗ ℕ
  | none => toLex (2 * (origins \ inlinedFrom.toFinset).card + 2, 0)
  | some f => toLex (2 * (origins \ inlinedFrom.toFinset).card + 1, sizeOf f)

theorem bottomRank_lt_callRank (origins : Finset Origin) (inlinedFrom : List Origin)
    (item? : Option FuncItem) : bottomRank < callRank origins inlinedFrom item? := by
  cases item? <;> exact Prod.Lex.left _ _ (Nat.succ_pos _)

theorem callRank_le_none (origins : Finset Origin) (inlinedFrom : List Origin)
    (item? : Option FuncItem) :
    callRank origins inlinedFrom item? ≤ callRank origins inlinedFrom none := by
  cases item? with
  | none => exact le_refl _
  | some f => exact Prod.Lex.toLex_le_toLex.2 (.inl (Nat.lt_succ_self _))

theorem callRank_lt {origins : Finset Origin} {before after : List Origin} {o : Origin}
    (here : o ∈ origins) (new : o ∉ before) (kept : before ⊆ after) (added : o ∈ after)
    (item? item?' : Option FuncItem) :
    callRank origins after item?' < callRank origins before item? := by
  have fewer : (origins \ after.toFinset).card < (origins \ before.toFinset).card := by
    refine Finset.card_lt_card ⟨Finset.sdiff_subset_sdiff (le_refl _) ?_, fun back => ?_⟩
    · exact fun x mem => List.mem_toFinset.2 (kept (List.mem_toFinset.1 mem))
    · have mem := back (Finset.mem_sdiff.2 ⟨here, fun old => new (List.mem_toFinset.1 old)⟩)
      exact (Finset.mem_sdiff.1 mem).2 (List.mem_toFinset.2 added)
  cases item? <;> cases item?' <;> exact Prod.Lex.toLex_lt_toLex.2 (.inl (by omega))

theorem callRank_lt_of_sizeOf {origins : Finset Origin} {before after : List Origin} {f g : FuncItem}
    (kept : before ⊆ after) (smaller : sizeOf g < sizeOf f) :
    callRank origins after (some g) < callRank origins before (some f) := by
  have fewer : (origins \ after.toFinset).card ≤ (origins \ before.toFinset).card :=
    Finset.card_le_card (Finset.sdiff_subset_sdiff (le_refl _)
      fun x mem => List.mem_toFinset.2 (kept (List.mem_toFinset.1 mem)))
  refine Prod.Lex.toLex_lt_toLex.2 ?_
  rcases Nat.lt_or_eq_of_le fewer with lt | eq
  · exact .inl (by omega)
  · exact .inr ⟨by rw [eq], smaller⟩

noncomputable def Kind.charge (origins : Finset Origin) : Kind → Weight
  | .letIn => {bottomRank}
  | .closure _ captures _ => .replicate captures bottomRank
  | .dynamicCall inlinedFrom item? => {callRank origins inlinedFrom item?}
  | .value _ | .var _ | .call _ | .plain => 0

namespace Expr

variable (origins : Finset Origin)

noncomputable def weight (e : Expr) : Weight := (e.kinds.map (Kind.charge origins)).sum

theorem weight_eq (e : Expr) :
    e.weight origins = e.kind.charge origins + (e.parts.map (weight origins)).sum := by
  have sum : ∀ es : List Expr, ((es.flatMap kinds).map (Kind.charge origins)).sum =
      (es.map (weight origins)).sum := by
    intro es
    induction es with
    | nil => rfl
    | cons e es ih => rw [List.flatMap_cons, List.map_append, List.sum_append, ih]; rfl
  rw [weight, kinds_eq, List.map_cons, List.sum_cons, sum]

variable {origins}

theorem mem_weight_iff {e : Expr} {y : ℕ ×ₗ ℕ} :
    y ∈ e.weight origins ↔ ∃ k ∈ e.kinds, y ∈ k.charge origins := by
  unfold weight
  induction e.kinds with
  | nil => simp
  | cons k ks ih => simp [ih]

theorem weight_le_of_mem_parts {e p : Expr} (mem : p ∈ e.parts) :
    p.weight origins ≤ e.weight origins := by
  rw [weight_eq origins e]
  exact le_trans (List.le_sum_of_mem (List.mem_map_of_mem mem)) (Multiset.le_add_left _ _)

theorem weight_of_kinds_eq {e e' : Expr} (same : e'.kinds = e.kinds) :
    e'.weight origins = e.weight origins := by rw [weight, same, weight]

theorem weight_node {e e' : Expr} (charge : (e'.kind.charge origins).Lighter (e.kind.charge origins))
    (parts : List.Forall₂ (fun p p' => (p'.weight origins).Lighter (p.weight origins))
      e.parts e'.parts) : (e'.weight origins).Lighter (e.weight origins) := by
  rw [weight_eq origins e, weight_eq origins e']
  refine charge.add ?_
  generalize e.parts = es at parts
  generalize e'.parts = es' at parts
  induction parts with
  | nil => exact .refl _
  | cons first _ ih => exact first.add ih

end Expr

end QueryFunctions
