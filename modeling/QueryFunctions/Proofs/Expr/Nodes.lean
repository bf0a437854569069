import Mathlib.Data.List.Basic
import QueryFunctions.Expr.Sites
import QueryFunctions.Expr.Traversal

/-! The nodes of an expression are itself and the nodes of its parts, so what an expression hands down to
its parts holds at every node. Its operands are the parts that are evaluated in its own frame; the body of
a closure is none of them, since it runs in a frame of its own. -/
namespace QueryFunctions

theorem listNodes_eq (es : List Expr) : listNodes es = es.flatMap Expr.nodes := by
  induction es with
  | nil => rfl
  | cons e es ih => rw [listNodes, ih, List.flatMap_cons]

theorem supplyNodes_eq (es : List (VarId × Expr)) :
    supplyNodes es = (es.map Prod.snd).flatMap Expr.nodes := by
  induction es with
  | nil => rfl
  | cons p es ih => rw [supplyNodes, ih, List.map_cons, List.flatMap_cons]

theorem Closure.nodes_eq (c : Closure) :
    c.nodes = (c.captures.map Prod.snd).flatMap Expr.nodes ++ c.body.nodes := by
  cases c
  rw [Closure.nodes, supplyNodes_eq]

namespace Expr

def parts : Expr → List Expr
  | .value _ | .var _ | .focus _ | .error _ => []
  | .letIn _ _ bound body => [bound, body]
  | .branch cond yes no _ => [cond, yes, no]
  | .arith _ lhs rhs _ | .compare _ lhs rhs _ => [lhs, rhs]
  | .seq items => items
  | .treat expr _ _ => [expr]
  | .builtin _ args _ | .call _ args => args
  | .closure c | .literal _ c => c.captures.map Prod.snd ++ [c.body]
  | .partialApply _ target args => target :: args
  | .dynamicCall _ callee args => callee :: args

theorem nodes_eq (e : Expr) : e.nodes = e :: e.parts.flatMap nodes := by
  cases e <;> simp [nodes, parts, listNodes_eq, Closure.nodes_eq]

theorem mem_nodes_self (e : Expr) : e ∈ e.nodes := by simp [nodes_eq e]

theorem nodes_subset_of_mem_parts {e p : Expr} (mem : p ∈ e.parts) : p.nodes ⊆ e.nodes := by
  intro n hn
  rw [nodes_eq e]
  exact List.mem_cons_of_mem _ (List.mem_flatMap.2 ⟨p, mem, hn⟩)

theorem length_nodes_lt {e p : Expr} (mem : p ∈ e.parts) : p.nodes.length < e.nodes.length := by
  have le : p.nodes.length ≤ (e.parts.flatMap nodes).length :=
    (List.sublist_flatten_of_mem (List.mem_map_of_mem mem)).length_le
  rw [nodes_eq e, List.length_cons]
  omega

theorem of_mem_nodes {P : Expr → Prop} (inherited : ∀ e, P e → ∀ p ∈ e.parts, P p) {n : Expr}
    (e : Expr) (he : P e) (mem : n ∈ e.nodes) : P n := by
  rw [nodes_eq e] at mem
  rcases List.mem_cons.1 mem with rfl | mem
  · exact he
  · obtain ⟨p, part, mem⟩ := List.mem_flatMap.1 mem
    exact of_mem_nodes inherited p (inherited e he p part) mem
termination_by e.nodes.length
decreasing_by exact length_nodes_lt part

end Expr

section

variable (f : CallSite → CallSite) (g : DynamicSite → DynamicSite)

theorem mapListSites_eq (es : List Expr) : mapListSites f g es = es.map (·.mapSites f g) := by
  induction es with
  | nil => rfl
  | cons e es ih => simp [mapListSites, ih]

theorem mapSupplySites_eq (es : List (VarId × Expr)) :
    mapSupplySites f g es = es.map fun q => (q.1, q.2.mapSites f g) := by
  induction es with
  | nil => rfl
  | cons q es ih => simp [mapSupplySites, ih]

theorem Closure.mapSites_eq (c : Closure) : c.mapSites f g =
    { c with
      body := c.body.mapSites f g, captures := c.captures.map fun q => (q.1, q.2.mapSites f g) } := by
  cases c
  rw [Closure.mapSites, mapSupplySites_eq]

namespace Expr

theorem parts_mapSites (e : Expr) : (e.mapSites f g).parts = e.parts.map (·.mapSites f g) := by
  cases e <;> simp [mapSites, parts, mapListSites_eq, Closure.mapSites_eq]

theorem nodes_mapSites (e : Expr) : (e.mapSites f g).nodes = e.nodes.map (·.mapSites f g) := by
  have inside : ∀ p ∈ e.parts, (p.mapSites f g).nodes = p.nodes.map (·.mapSites f g) :=
    fun p mem => nodes_mapSites p
  rw [nodes_eq, nodes_eq e, parts_mapSites, List.map_cons, List.flatMap_map, List.map_flatMap,
    List.flatMap_congr inside]
termination_by e.nodes.length
decreasing_by exact length_nodes_lt mem

end Expr

end

mutual
theorem Expr.anyNode_eq (p : Expr → Bool) : (e : Expr) → e.anyNode p = e.nodes.any p
  | .value _ | .var _ | .focus _ | .error _ => by simp [Expr.anyNode, Expr.nodes]
  | .letIn _ _ value body => by
    simp [Expr.anyNode, Expr.nodes, value.anyNode_eq p, body.anyNode_eq p, Bool.or_assoc]
  | .branch cond yes no _ => by
    simp [Expr.anyNode, Expr.nodes, cond.anyNode_eq p, yes.anyNode_eq p, no.anyNode_eq p,
      Bool.or_assoc]
  | .arith _ lhs rhs _ | .compare _ lhs rhs _ => by
    simp [Expr.anyNode, Expr.nodes, lhs.anyNode_eq p, rhs.anyNode_eq p, Bool.or_assoc]
  | .seq items => by simp [Expr.anyNode, Expr.nodes, listAnyNode_eq p items]
  | .treat expr _ _ => by simp [Expr.anyNode, Expr.nodes, expr.anyNode_eq p]
  | .builtin _ args _ | .call _ args => by
    simp [Expr.anyNode, Expr.nodes, listAnyNode_eq p args]
  | .closure c | .literal _ c => by simp [Expr.anyNode, Expr.nodes, c.anyNode_eq p]
  | .partialApply _ e args | .dynamicCall _ e args => by
    simp [Expr.anyNode, Expr.nodes, e.anyNode_eq p, listAnyNode_eq p args, Bool.or_assoc]

theorem listAnyNode_eq (p : Expr → Bool) : (es : List Expr) →
    listAnyNode p es = (listNodes es).any p
  | [] => rfl
  | e :: es => by simp [listAnyNode, listNodes, e.anyNode_eq p, listAnyNode_eq p es]

theorem Closure.anyNode_eq (p : Expr → Bool) : (c : Closure) → c.anyNode p = c.nodes.any p
  | ⟨_, _, body, _, _, _, captures, _, _, _⟩ => by
    simp [Closure.anyNode, Closure.nodes, body.anyNode_eq p, supplyAnyNode_eq p captures]

theorem supplyAnyNode_eq (p : Expr → Bool) : (es : List (VarId × Expr)) →
    supplyAnyNode p es = (supplyNodes es).any p
  | [] => rfl
  | (_, e) :: es => by simp [supplyAnyNode, supplyNodes, e.anyNode_eq p, supplyAnyNode_eq p es]
end

mutual
/-- A focus expression stands outside of all function bodies. A literal captures nothing. -/
def Expr.seesFocus : Expr → Bool
  | .value _ | .var _ | .error _ | .literal _ _ => false
  | .focus _ => true
  | .letIn _ _ value body => value.seesFocus || body.seesFocus
  | .branch cond yes no _ => cond.seesFocus || yes.seesFocus || no.seesFocus
  | .arith _ lhs rhs _ | .compare _ lhs rhs _ => lhs.seesFocus || rhs.seesFocus
  | .seq items => anySeesFocus items
  | .treat expr _ _ => expr.seesFocus
  | .builtin _ args _ | .call _ args => anySeesFocus args
  | .closure c => c.seesFocus
  | .partialApply _ e args | .dynamicCall _ e args => e.seesFocus || anySeesFocus args
termination_by structural x => x

def anySeesFocus : List Expr → Bool
  | [] => false
  | e :: es => e.seesFocus || anySeesFocus es
termination_by structural x => x

def Closure.seesFocus : Closure → Bool
  | ⟨_, _, _, _, _, _, captures, _, _, _⟩ => anySupplySeesFocus captures
termination_by structural x => x

def anySupplySeesFocus : List (VarId × Expr) → Bool
  | [] => false
  | (_, e) :: es => e.seesFocus || anySupplySeesFocus es
termination_by structural x => x
end

mutual
theorem Expr.seesFocus_of_has : (e : Expr) → e.has .ctx = false → e.seesFocus = false
  | .value _, _ | .var _, _ | .error _, _ | .literal _ _, _ => by simp [Expr.seesFocus]
  | .focus _, h => by simp [Expr.has] at h
  | .letIn _ _ value body, h => by
    simp only [Expr.has, Bool.or_eq_false_iff] at h
    simp [Expr.seesFocus, value.seesFocus_of_has h.1, body.seesFocus_of_has h.2]
  | .branch cond yes no _, h => by
    simp only [Expr.has, Bool.or_eq_false_iff] at h
    simp [Expr.seesFocus, cond.seesFocus_of_has h.1.1, yes.seesFocus_of_has h.1.2,
      no.seesFocus_of_has h.2]
  | .arith _ lhs rhs _, h | .compare _ lhs rhs _, h => by
    simp only [Expr.has, Bool.or_eq_false_iff] at h
    simp [Expr.seesFocus, lhs.seesFocus_of_has h.1, rhs.seesFocus_of_has h.2]
  | .seq items, h => anySeesFocus_of_has items h
  | .treat expr _ _, h => expr.seesFocus_of_has h
  | .builtin _ args _, h | .call _ args, h => by
    simp only [Expr.has, Bool.or_eq_false_iff] at h
    exact anySeesFocus_of_has args h.2
  | .closure c, h => Closure.seesFocus_of_has c h
  | .partialApply _ e args, h => by
    simp only [Expr.has, Bool.or_eq_false_iff] at h
    simp [Expr.seesFocus, e.seesFocus_of_has h.1, anySeesFocus_of_has args h.2]
  | .dynamicCall _ e args, h => by
    simp only [Expr.has, Bool.or_eq_false_iff] at h
    simp [Expr.seesFocus, e.seesFocus_of_has h.1.2, anySeesFocus_of_has args h.2]

theorem anySeesFocus_of_has : (es : List Expr) → anyHas .ctx es = false → anySeesFocus es = false
  | [], _ => rfl
  | e :: es, h => by
    simp only [anyHas, Bool.or_eq_false_iff] at h
    simp [anySeesFocus, e.seesFocus_of_has h.1, anySeesFocus_of_has es h.2]

theorem Closure.seesFocus_of_has : (c : Closure) → c.has .ctx = false → c.seesFocus = false
  | ⟨_, _, _, _, _, _, captures, _, _, _⟩, h => anySupplySeesFocus_of_has captures h

theorem anySupplySeesFocus_of_has : (es : List (VarId × Expr)) →
    anySupplyHas .ctx es = false → anySupplySeesFocus es = false
  | [], _ => rfl
  | (_, e) :: es, h => by
    simp only [anySupplyHas, Bool.or_eq_false_iff] at h
    simp [anySupplySeesFocus, e.seesFocus_of_has h.1, anySupplySeesFocus_of_has es h.2]
end

theorem anySeesFocus_eq (es : List Expr) : anySeesFocus es = es.any (·.seesFocus) := by
  induction es with
  | nil => rfl
  | cons e es ih => simp [anySeesFocus, ih]

theorem anySupplySeesFocus_eq (es : List (VarId × Expr)) :
    anySupplySeesFocus es = es.any (·.2.seesFocus) := by
  induction es with
  | nil => rfl
  | cons p es ih => simp [anySupplySeesFocus, ih]

theorem Closure.seesFocus_eq (c : Closure) : c.seesFocus = c.captures.any (·.2.seesFocus) := by
  cases c
  exact anySupplySeesFocus_eq _

namespace Expr

/-- The expressions that are evaluated as part of an expression, in the same frame. -/
def operands : Expr → List Expr
  | .value _ | .var _ | .focus _ | .error _ | .literal _ _ => []
  | .letIn _ _ bound body => [bound, body]
  | .branch cond yes no _ => [cond, yes, no]
  | .arith _ lhs rhs _ | .compare _ lhs rhs _ => [lhs, rhs]
  | .seq items => items
  | .treat expr _ _ => [expr]
  | .builtin _ args _ | .call _ args => args
  | .closure c => c.captures.map Prod.snd
  | .partialApply _ e args | .dynamicCall _ e args => e :: args

theorem parts_of_mem_operands {e p : Expr} (mem : p ∈ e.operands) : p ∈ e.parts := by
  cases e with
  | closure c => exact List.mem_append_left _ mem
  | literal site c => cases mem
  | _ => exact mem

theorem seesFocus_of_mem_operands {e p : Expr} (mem : p ∈ e.operands) (sees : p.seesFocus = true) :
    e.seesFocus = true := by
  cases e with
  | value | var | focus | error | literal => cases mem
  | letIn _ _ _ _ | arith _ _ _ _ | compare _ _ _ _ =>
    obtain rfl | rfl : p = _ ∨ p = _ := by simpa [operands] using mem
    · simp [seesFocus, sees]
    · simp [seesFocus, sees]
  | branch _ _ _ _ =>
    obtain rfl | rfl | rfl : p = _ ∨ p = _ ∨ p = _ := by simpa [operands] using mem
    · simp [seesFocus, sees]
    · simp [seesFocus, sees]
    · simp [seesFocus, sees]
  | treat _ _ _ => exact List.mem_singleton.1 mem ▸ sees
  | seq es | builtin _ es _ | call _ es =>
    rw [seesFocus, anySeesFocus_eq]
    exact List.any_eq_true.2 ⟨p, mem, sees⟩
  | partialApply _ _ es | dynamicCall _ _ es =>
    rw [seesFocus, anySeesFocus_eq, Bool.or_eq_true, List.any_eq_true]
    rcases List.mem_cons.1 mem with rfl | mem
    · exact .inl sees
    · exact .inr ⟨p, mem, sees⟩
  | closure c =>
    rw [seesFocus, Closure.seesFocus_eq, List.any_eq_true]
    obtain ⟨q, among, rfl⟩ := List.mem_map.1 mem
    exact ⟨q, among, sees⟩

theorem references_of_mem_operands {e p : Expr} {id : VarId} (mem : p ∈ e.operands)
    (refers : p.references id = true) : e.references id = true := by
  unfold references at refers ⊢
  rw [anyNode_eq, List.any_eq_true] at refers ⊢
  obtain ⟨n, among, hit⟩ := refers
  exact ⟨n, nodes_subset_of_mem_parts (parts_of_mem_operands mem) among, hit⟩

theorem references_of_operand {e p : Expr} {id : VarId} (absent : e.references id = false)
    (mem : p ∈ e.operands) : p.references id = false := by
  cases refers : p.references id with
  | false => rfl
  | true => exact absurd (references_of_mem_operands mem refers) (by rw [absent]; decide)

end Expr

end QueryFunctions
