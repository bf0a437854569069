import QueryFunctions.Proofs.Run.Kinship
import QueryFunctions.Proofs.Tail.Basic
import QueryFunctions.Expr.Traversal

/-! Marks on calls cannot be seen from a value, and change nothing that is known of code before it runs:
its type, its flags, its size, and the variables and functions that it refers to. -/
namespace QueryFunctions

namespace FuncItem.MoreTail

variable {f g : FuncItem}

theorem code (h : f.MoreTail g) : f.code.MoreTail g.code := by
  cases h with
  | item _ _ _ _ _ _ h => exact h

theorem looksLike (h : f.MoreTail g) : f.LooksLike g := by
  cases h
  rfl

theorem origin_eq (h : f.MoreTail g) : g.origin = f.origin := by
  cases h
  rfl

theorem paramName?_eq (h : f.MoreTail g) (position : Nat) :
    g.paramName? position = f.paramName? position := by
  cases h with
  | item _ _ _ _ _ _ h => cases h <;> rfl

end FuncItem.MoreTail

mutual
theorem Value.MoreTail.looksLike : {v w : Value} → v.MoreTail w → v.LooksLike w
  | _, _, .int _ | _, _, .bool _ | _, _, .str _ => rfl
  | _, _, .seq h => congrArg Value.seq h.facades_eq
  | _, _, .func h => congrArg Value.func h.looksLike

theorem ValuesMoreTail.facades_eq : {vs ws : List Value} → ValuesMoreTail vs ws →
    facades vs = facades ws
  | _, _, .nil => rfl
  | _, _, .cons h h' => congrArg₂ List.cons h.looksLike h'.facades_eq
end

namespace ValuesMoreTail

variable {vs ws vs' ws' : List Value}

theorem append (h : ValuesMoreTail vs ws) (h' : ValuesMoreTail vs' ws') :
    ValuesMoreTail (vs ++ vs') (ws ++ ws') := by
  rw [valuesMoreTail_iff] at *
  exact List.rel_append h h'

theorem length_eq (h : ValuesMoreTail vs ws) : ws.length = vs.length :=
  (valuesMoreTail_iff.1 h).length_eq.symm

end ValuesMoreTail

namespace Value.MoreTail

variable {v w : Value}

theorem items (h : v.MoreTail w) : ValuesMoreTail v.items w.items := by
  cases h with
  | seq h => exact h
  | int i => exact .cons (.int i) .nil
  | bool b => exact .cons (.bool b) .nil
  | str s => exact .cons (.str s) .nil
  | func h => exact .cons (.func h) .nil

theorem kinship : Kinship Value.MoreTail FuncItem.MoreTail where
  refl := .refl
  looksLike h := h.looksLike
  split h := valuesMoreTail_iff.1 h.items
  seq h := .seq (valuesMoreTail_iff.2 h)
  func := ⟨fun h => by cases h; assumption, .func⟩

theorem ofItems {vs ws : List Value} (h : ValuesMoreTail vs ws) :
    (Value.ofItems vs).MoreTail (Value.ofItems ws) :=
  kinship.join (valuesMoreTail_iff.1 h)

theorem asFunc (h : v.MoreTail w) (span : Span) :
    Ends FuncItem.MoreTail (v.asFunc span) (w.asFunc span) := kinship.asFunc h span

end Value.MoreTail

theorem ListMoreTail.length_eq {es es' : List Expr} (h : ListMoreTail es es') :
    es'.length = es.length :=
  (listMoreTail_iff.1 h).length_eq.symm

theorem ListMoreTail.zip {es es' : List Expr} (h : ListMoreTail es es') (ids : List VarId) :
    SuppliesMoreTail (ids.zip es) (ids.zip es') := by
  rw [listMoreTail_iff] at h
  induction h generalizing ids with
  | nil =>
    rw [List.zip_nil_right]
    exact .nil
  | cons he _ ih =>
    cases ids with
    | nil => exact .nil
    | cons id ids => exact .cons id he (ih ids)

theorem SuppliesMoreTail.append {es es' fs fs' : List (VarId × Expr)}
    (h : SuppliesMoreTail es es') (h' : SuppliesMoreTail fs fs') :
    SuppliesMoreTail (es ++ fs) (es' ++ fs') := by
  rw [suppliesMoreTail_iff] at *
  exact List.rel_append h h'

theorem CapturedMoreTail.supplies {vs ws : List (Variable × Value)} (h : CapturedMoreTail vs ws) :
    SuppliesMoreTail (vs.map fun (v, value) => (v.id, .value value))
      (ws.map fun (v, value) => (v.id, .value value)) := by
  rw [capturedMoreTail_iff] at h
  induction h with
  | nil => exact .nil
  | @cons p q _ _ hpq _ ih =>
    obtain ⟨x, v⟩ := p
    obtain ⟨y, w⟩ := q
    obtain ⟨rfl, hv⟩ := hpq
    exact .cons x.id (.value hv) ih

theorem CallSite.MoreTail.target_eq {site site' : CallSite} (h : site.MoreTail site') :
    site'.target = site.target := by rw [h.same]

theorem CallSite.MoreTail.type_eq {site site' : CallSite} (h : site.MoreTail site') :
    site'.type = site.type := by rw [h.same]

theorem CallSite.MoreTail.flags_eq {site site' : CallSite} (h : site.MoreTail site') :
    site'.flags = site.flags := by rw [h.same]

theorem CallSite.MoreTail.span_eq {site site' : CallSite} (h : site.MoreTail site') :
    site'.span = site.span := by rw [h.same]

theorem DynamicSite.MoreTail.updating_eq {site site' : DynamicSite} (h : site.MoreTail site') :
    site'.updating = site.updating := by rw [h.same]

theorem DynamicSite.MoreTail.inlinedFrom_eq {site site' : DynamicSite} (h : site.MoreTail site') :
    site'.inlinedFrom = site.inlinedFrom := by rw [h.same]

theorem DynamicSite.MoreTail.span_eq {site site' : DynamicSite} (h : site.MoreTail site') :
    site'.span = site.span := by rw [h.same]

theorem Closure.MoreTail.typeWith_eq {c c' : Closure} (h : c.MoreTail c') (type : SeqType) :
    c'.typeWith type = c.typeWith type := by
  cases h
  rfl

mutual
theorem Expr.MoreTail.inferredType_eq : {e e' : Expr} → e.MoreTail e' →
    e'.inferredType = e.inferredType
  | _, _, .value h => by rw [Expr.inferredType, Expr.inferredType, h.looksLike.seqType_eq]
  | _, _, .letIn _ _ _ h => by rw [Expr.inferredType, Expr.inferredType, h.inferredType_eq]
  | _, _, .branch _ _ h h' => by
    rw [Expr.inferredType, Expr.inferredType, h.inferredType_eq, h'.inferredType_eq]
  | _, _, .closure h => by
    rw [Expr.inferredType, Expr.inferredType, h.bodyType_eq, h.typeWith_eq]
  | _, _, .literal _ h => by
    rw [Expr.inferredType, Expr.inferredType, h.bodyType_eq, h.typeWith_eq]
  | _, _, .call h _ => by rw [Expr.inferredType, Expr.inferredType, h.type_eq]
  | _, _, .dynamicCall _ h _ => by rw [Expr.inferredType, Expr.inferredType, h.inferredType_eq]
  | _, _, .seq .nil => rfl
  | _, _, .seq (.cons _ _) => rfl
  | _, _, .var _ => rfl
  | _, _, .arith _ _ _ _ => rfl
  | _, _, .compare _ _ _ _ => rfl
  | _, _, .focus _ => rfl
  | _, _, .treat _ _ _ => rfl
  | _, _, .builtin _ _ _ => rfl
  | _, _, .error _ => rfl
  | _, _, .partialApply _ _ _ => rfl

theorem Closure.MoreTail.bodyType_eq : {c c' : Closure} → c.MoreTail c' → c'.bodyType = c.bodyType
  | _, _, .closure _ _ _ _ _ _ _ _ _ h => h.inferredType_eq
end

mutual
theorem Expr.MoreTail.size_eq : {e e' : Expr} → e.MoreTail e' →
    e'.size = e.size
  | _, _, .letIn _ _ h h' => by simp only [Expr.size, h.size_eq, h'.size_eq]
  | _, _, .branch _ h h' h'' => by simp only [Expr.size, h.size_eq, h'.size_eq, h''.size_eq]
  | _, _, .arith _ _ h h' => by simp only [Expr.size, h.size_eq, h'.size_eq]
  | _, _, .compare _ _ h h' => by simp only [Expr.size, h.size_eq, h'.size_eq]
  | _, _, .seq h => by simp only [Expr.size, h.size_eq]
  | _, _, .treat _ _ h => by simp only [Expr.size, h.size_eq]
  | _, _, .builtin _ _ h => by simp only [Expr.size, h.size_eq]
  | _, _, .closure h => by simp only [Expr.size, h.size_eq]
  | _, _, .literal _ h => by simp only [Expr.size, h.size_eq]
  | _, _, .partialApply _ h h' => by simp only [Expr.size, h.size_eq, h'.size_eq]
  | _, _, .call _ h => by simp only [Expr.size, h.size_eq]
  | _, _, .dynamicCall _ h h' => by simp only [Expr.size, h.size_eq, h'.size_eq]
  | _, _, .value _ => rfl
  | _, _, .var _ => rfl
  | _, _, .focus _ => rfl
  | _, _, .error _ => rfl

theorem ListMoreTail.size_eq : {es es' : List Expr} → ListMoreTail es es' →
    listSize es' = listSize es
  | _, _, .nil => rfl
  | _, _, .cons h h' => by simp only [listSize, h.size_eq, h'.size_eq]

theorem Closure.MoreTail.size_eq : {c c' : Closure} → c.MoreTail c' →
    c'.size = c.size
  | _, _, .closure _ _ _ _ _ _ _ _ h h' => by simp only [Closure.size, h.size_eq, h'.size_eq]

theorem SuppliesMoreTail.size_eq : {es es' : List (VarId × Expr)} →
    SuppliesMoreTail es es' → supplySize es' = supplySize es
  | _, _, .nil => rfl
  | _, _, .cons _ h h' => by simp only [supplySize, h.size_eq, h'.size_eq]
end

mutual
theorem Expr.MoreTail.has_eq (flag : Flag) : {e e' : Expr} → e.MoreTail e' →
    e'.has flag = e.has flag
  | _, _, .letIn _ _ h h' => by simp only [Expr.has, h.has_eq flag, h'.has_eq flag]
  | _, _, .branch _ h h' h'' => by
    simp only [Expr.has, h.has_eq flag, h'.has_eq flag, h''.has_eq flag]
  | _, _, .arith _ _ h h' => by simp only [Expr.has, h.has_eq flag, h'.has_eq flag]
  | _, _, .compare _ _ h h' => by simp only [Expr.has, h.has_eq flag, h'.has_eq flag]
  | _, _, .seq h => by simp only [Expr.has, h.has_eq flag]
  | _, _, .treat _ _ h => by simp only [Expr.has, h.has_eq flag]
  | _, _, .builtin _ _ h => by simp only [Expr.has, h.has_eq flag]
  | _, _, .closure h => by simp only [Expr.has, h.has_eq flag]
  | _, _, .literal _ _ => rfl
  | _, _, .partialApply _ h h' => by simp only [Expr.has, h.has_eq flag, h'.has_eq flag]
  | _, _, .call hsite h => by simp only [Expr.has, hsite.flags_eq, h.has_eq flag]
  | _, _, .dynamicCall hsite h h' => by
    simp only [Expr.has, hsite.updating_eq, h.has_eq flag, h'.has_eq flag]
  | _, _, .value _ => rfl
  | _, _, .var _ => rfl
  | _, _, .focus _ => rfl
  | _, _, .error _ => rfl

theorem ListMoreTail.has_eq (flag : Flag) : {es es' : List Expr} → ListMoreTail es es' →
    anyHas flag es' = anyHas flag es
  | _, _, .nil => rfl
  | _, _, .cons h h' => by simp only [anyHas, h.has_eq flag, h'.has_eq flag]

theorem Closure.MoreTail.has_eq (flag : Flag) : {c c' : Closure} → c.MoreTail c' →
    c'.has flag = c.has flag
  | _, _, .closure _ _ _ _ _ _ _ _ h _ => by simp only [Closure.has, h.has_eq flag]

theorem SuppliesMoreTail.has_eq (flag : Flag) : {es es' : List (VarId × Expr)} →
    SuppliesMoreTail es es' → anySupplyHas flag es' = anySupplyHas flag es
  | _, _, .nil => rfl
  | _, _, .cons _ h h' => by simp only [anySupplyHas, h.has_eq flag, h'.has_eq flag]
end

/-- What is asked of a node does not depend on marks. -/
def BlindToTails (p : Expr → Bool) : Prop := ∀ {e e' : Expr}, e.MoreTail e' → p e' = p e

section

variable {p : Expr → Bool} (blind : BlindToTails p)

mutual
theorem Expr.MoreTail.anyNode_eq (blind : BlindToTails p) : {e e' : Expr} → e.MoreTail e' →
    e'.anyNode p = e.anyNode p
  | _, _, .letIn id slot h h' => by
    simp only [Expr.anyNode, blind (Expr.MoreTail.letIn id slot h h'), h.anyNode_eq blind,
      h'.anyNode_eq blind]
  | _, _, .branch span h h' h'' => by
    simp only [Expr.anyNode, blind (Expr.MoreTail.branch span h h' h''), h.anyNode_eq blind,
      h'.anyNode_eq blind, h''.anyNode_eq blind]
  | _, _, .arith op span h h' => by
    simp only [Expr.anyNode, blind (Expr.MoreTail.arith op span h h'), h.anyNode_eq blind,
      h'.anyNode_eq blind]
  | _, _, .compare op span h h' => by
    simp only [Expr.anyNode, blind (Expr.MoreTail.compare op span h h'), h.anyNode_eq blind,
      h'.anyNode_eq blind]
  | _, _, .seq h => by simp only [Expr.anyNode, blind (Expr.MoreTail.seq h), h.anyNode_eq blind]
  | _, _, .treat type span h => by
    simp only [Expr.anyNode, blind (Expr.MoreTail.treat type span h), h.anyNode_eq blind]
  | _, _, .builtin function span h => by
    simp only [Expr.anyNode, blind (Expr.MoreTail.builtin function span h), h.anyNode_eq blind]
  | _, _, .closure h => by simp only [Expr.anyNode, blind (Expr.MoreTail.closure h), h.anyNode_eq blind]
  | _, _, .literal site h => by
    simp only [Expr.anyNode, blind (Expr.MoreTail.literal site h), h.anyNode_eq blind]
  | _, _, .partialApply site h h' => by
    simp only [Expr.anyNode, blind (Expr.MoreTail.partialApply site h h'), h.anyNode_eq blind,
      h'.anyNode_eq blind]
  | _, _, .call hsite h => by
    simp only [Expr.anyNode, blind (Expr.MoreTail.call hsite h), h.anyNode_eq blind]
  | _, _, .dynamicCall hsite h h' => by
    simp only [Expr.anyNode, blind (Expr.MoreTail.dynamicCall hsite h h'), h.anyNode_eq blind,
      h'.anyNode_eq blind]
  | _, _, .value h => blind (.value h)
  | _, _, .var _ => rfl
  | _, _, .focus _ => rfl
  | _, _, .error _ => rfl

theorem ListMoreTail.anyNode_eq (blind : BlindToTails p) : {es es' : List Expr} → ListMoreTail es es' →
    listAnyNode p es' = listAnyNode p es
  | _, _, .nil => rfl
  | _, _, .cons h h' => by simp only [listAnyNode, h.anyNode_eq blind, h'.anyNode_eq blind]

theorem Closure.MoreTail.anyNode_eq (blind : BlindToTails p) : {c c' : Closure} → c.MoreTail c' →
    c'.anyNode p = c.anyNode p
  | _, _, .closure _ _ _ _ _ _ _ _ h h' => by
    simp only [Closure.anyNode, h.anyNode_eq blind, h'.anyNode_eq blind]

theorem SuppliesMoreTail.anyNode_eq (blind : BlindToTails p) : {es es' : List (VarId × Expr)} →
    SuppliesMoreTail es es' → supplyAnyNode p es' = supplyAnyNode p es
  | _, _, .nil => rfl
  | _, _, .cons _ h h' => by simp only [supplyAnyNode, h.anyNode_eq blind, h'.anyNode_eq blind]
end

end

namespace Expr.MoreTail

variable {e e' : Expr}

theorem references_eq (h : e.MoreTail e') (id : VarId) : e'.references id = e.references id := by
  refine h.anyNode_eq fun h => ?_
  cases h <;> rfl

theorem uses_eq (h : e.MoreTail e') (target : FuncId) : e'.uses target = e.uses target := by
  refine h.anyNode_eq fun h => ?_
  cases h with
  | call hsite _ => simp only [isUseOf, hsite.target_eq]
  | _ => rfl

theorem flags_eq (h : e.MoreTail e') : e'.flags = e.flags := by
  simp only [flags, h.has_eq]

theorem isAtom_eq (h : e.MoreTail e') : e'.isAtom = e.isAtom := by cases h <;> rfl

theorem isValue_eq (h : e.MoreTail e') : e'.isValue = e.isValue := by cases h <;> rfl

end Expr.MoreTail

mutual
theorem Expr.MoreTail.targets_eq : {e e' : Expr} → e.MoreTail e' →
    e'.nodes.filterMap Expr.callTarget? = e.nodes.filterMap Expr.callTarget?
  | _, _, .letIn _ _ h h' => by
    simp [Expr.nodes, List.filterMap_cons, Expr.callTarget?, h.targets_eq, h'.targets_eq]
  | _, _, .branch _ h h' h'' => by
    simp [Expr.nodes, List.filterMap_cons, Expr.callTarget?, h.targets_eq, h'.targets_eq,
      h''.targets_eq]
  | _, _, .arith _ _ h h' => by
    simp [Expr.nodes, List.filterMap_cons, Expr.callTarget?, h.targets_eq, h'.targets_eq]
  | _, _, .compare _ _ h h' => by
    simp [Expr.nodes, List.filterMap_cons, Expr.callTarget?, h.targets_eq, h'.targets_eq]
  | _, _, .seq h => by simp [Expr.nodes, List.filterMap_cons, Expr.callTarget?, h.targets_eq]
  | _, _, .treat _ _ h => by simp [Expr.nodes, List.filterMap_cons, Expr.callTarget?, h.targets_eq]
  | _, _, .builtin _ _ h => by
    simp [Expr.nodes, List.filterMap_cons, Expr.callTarget?, h.targets_eq]
  | _, _, .closure h => by simp [Expr.nodes, List.filterMap_cons, Expr.callTarget?, h.targets_eq]
  | _, _, .literal _ h => by simp [Expr.nodes, List.filterMap_cons, Expr.callTarget?, h.targets_eq]
  | _, _, .partialApply _ h h' => by
    simp [Expr.nodes, List.filterMap_cons, Expr.callTarget?, h.targets_eq, h'.targets_eq]
  | _, _, .call hsite h => by
    simp [Expr.nodes, Expr.callTarget?, hsite.target_eq, h.targets_eq]
  | _, _, .dynamicCall _ h h' => by
    simp [Expr.nodes, List.filterMap_cons, Expr.callTarget?, h.targets_eq, h'.targets_eq]
  | _, _, .value _ => rfl
  | _, _, .var _ => rfl
  | _, _, .focus _ => rfl
  | _, _, .error _ => rfl

theorem ListMoreTail.targets_eq : {es es' : List Expr} → ListMoreTail es es' →
    (listNodes es').filterMap Expr.callTarget? = (listNodes es).filterMap Expr.callTarget?
  | _, _, .nil => rfl
  | _, _, .cons h h' => by simp [listNodes, h.targets_eq, h'.targets_eq]

theorem Closure.MoreTail.targets_eq : {c c' : Closure} → c.MoreTail c' →
    c'.nodes.filterMap Expr.callTarget? = c.nodes.filterMap Expr.callTarget?
  | _, _, .closure _ _ _ _ _ _ _ _ h h' => by simp [Closure.nodes, h.targets_eq, h'.targets_eq]

theorem SuppliesMoreTail.targets_eq : {es es' : List (VarId × Expr)} → SuppliesMoreTail es es' →
    (supplyNodes es').filterMap Expr.callTarget? = (supplyNodes es).filterMap Expr.callTarget?
  | _, _, .nil => rfl
  | _, _, .cons _ h h' => by simp [supplyNodes, h.targets_eq, h'.targets_eq]
end

theorem Expr.MoreTail.callees_eq {e e' : Expr} (h : e.MoreTail e') : e'.callees = e.callees := by
  rw [Expr.callees, Expr.callees, h.targets_eq]

namespace Closure.MoreTail

variable {c c' : Closure}

theorem funcType_eq (h : c.MoreTail c') : c'.funcType = c.funcType := by
  rw [funcType, funcType, h.bodyType_eq, h.typeWith_eq]

theorem paramVariables_eq (h : c.MoreTail c') : c'.paramVariables = c.paramVariables := by
  cases h
  rfl

theorem captures (h : c.MoreTail c') : SuppliesMoreTail c.captures c'.captures := by
  cases h with
  | closure _ _ _ _ _ _ _ _ h _ => exact h

theorem body (h : c.MoreTail c') : c.body.MoreTail c'.body := by
  cases h with
  | closure _ _ _ _ _ _ _ _ _ h => exact h

theorem scope_eq (h : c.MoreTail c') : c'.scope = c.scope := by
  cases h
  rfl

theorem params_eq (h : c.MoreTail c') : c'.params = c.params := by
  cases h
  rfl

theorem origin_eq (h : c.MoreTail c') : c'.origin = c.origin := by
  cases h
  rfl

theorem span_eq (h : c.MoreTail c') : c'.span = c.span := by
  cases h
  rfl

theorem declared_eq (h : c.MoreTail c') : c'.declared = c.declared := by
  cases h
  rfl

theorem annotations_eq (h : c.MoreTail c') : c'.annotations = c.annotations := by
  cases h
  rfl

theorem compiled_eq (h : c.MoreTail c') : c'.compiled = c.compiled := by
  cases h
  rfl

theorem captures_isEmpty_eq (h : c.MoreTail c') : c'.captures.isEmpty = c.captures.isEmpty := by
  cases h with
  | closure _ _ _ _ _ _ _ _ h _ => cases h <;> rfl

end Closure.MoreTail

end QueryFunctions
