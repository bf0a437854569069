import QueryFunctions.Value.Basic
import Mathlib.Data.List.Forall2

/-! Subtyping as a relation on static types, and as a promise about values at run time. Of a function type
a run looks at the arity only, which subtyping keeps. Parameters are compared the other way round at every
level, so what is shown of one direction is shown of both: inductions run over the type in the middle. -/
namespace QueryFunctions

namespace SeqType

theorem length_of_coverAll : {ps qs : List SeqType} → coverAll ps qs = true →
    ps.length = qs.length
  | [], [], _ => rfl
  | [], _ :: _, h | _ :: _, [], h => by simp [coverAll] at h
  | p :: ps, q :: qs, h => by
    rw [coverAll, Bool.and_eq_true] at h
    rw [List.length_cons, List.length_cons, length_of_coverAll h.2]

theorem funcType?_of_instanceOf {a b : SeqType} {g : FuncType} (narrower : a.instanceOf b = true)
    (typed : b.funcType? = some g) :
    ∃ f, a.funcType? = some f ∧ coverAll f.params g.params = true := by
  cases b with
  | function qs s u =>
    cases typed
    cases a with
    | function ps r u' =>
      rw [instanceOf, Bool.and_eq_true] at narrower
      exact ⟨_, rfl, narrower.1⟩
    | _ => simp [instanceOf] at narrower
  | _ => cases typed

theorem accepts_of_instanceOf {a b : SeqType} {v : Value} (narrower : a.instanceOf b = true)
    (accepted : a.accepts v = true) : b.accepts v = true := by
  cases b with
  | item => rfl
  | function qs s u =>
    cases a with
    | function ps r u' =>
      rw [instanceOf, Bool.and_eq_true] at narrower
      cases v with
      | func f =>
        have arity : f.arity = ps.length := by simpa [accepts] using accepted
        simpa [accepts, arity] using length_of_coverAll narrower.1
      | _ => simp [accepts] at accepted
    | _ => simp [instanceOf] at narrower
  | anyFunction =>
    cases a with
    | anyFunction => exact accepted
    | function ps r u =>
      cases v with
      | func f => rfl
      | _ => simp [accepts] at accepted
    | _ => simp [instanceOf] at narrower
  | _ =>
    cases a <;> simp_all [instanceOf]

theorem accepts_anyFunction {a : SeqType} {v : Value} (function : a.isFunction = true)
    (accepted : a.accepts v = true) : anyFunction.accepts v = true := by
  cases a with
  | anyFunction => exact accepted
  | function ps r u => exact accepts_of_instanceOf rfl accepted
  | _ => simp [isFunction] at function

theorem accepts_union {a b : SeqType} {v : Value}
    (accepted : a.accepts v = true ∨ b.accepts v = true) : (a.union b).accepts v = true := by
  unfold union
  split
  · rename_i narrower
    exact accepted.elim (accepts_of_instanceOf narrower) id
  · split
    · rename_i narrower
      exact accepted.elim id (accepts_of_instanceOf narrower)
    · split
      · rename_i functions
        rw [Bool.and_eq_true] at functions
        exact accepted.elim (accepts_anyFunction functions.1) (accepts_anyFunction functions.2)
      · rfl

end SeqType

theorem Value.accepts_seqType (v : Value) : v.seqType.accepts v = true := by
  cases v with
  | seq vs => cases vs <;> rfl
  | func f => simp [seqType, FuncType.toSeqType, SeqType.accepts, FuncItem.arity, FuncType.arity]
  | _ => rfl

namespace SeqType

theorem coverAll_iff {ps qs : List SeqType} :
    coverAll ps qs = true ↔ List.Forall₂ (fun p q => q.instanceOf p = true) ps qs := by
  induction ps generalizing qs with
  | nil => cases qs <;> simp [coverAll]
  | cons p ps ih =>
    cases qs with
    | nil => simp [coverAll]
    | cons q qs => simp [coverAll, covers_eq_instanceOf, ih]

theorem instanceOf_function {ps qs : List SeqType} {r s : SeqType} {u v : Bool} :
    (function ps r u).instanceOf (function qs s v) = true ↔
      List.Forall₂ (fun p q => q.instanceOf p = true) ps qs ∧ r.instanceOf s = true := by
  rw [instanceOf, Bool.and_eq_true, coverAll_iff]

theorem instanceOf_item (a : SeqType) : a.instanceOf item = true := by cases a <;> rfl

theorem eq_function_of_instanceOf {a s : SeqType} {qs : List SeqType} {v : Bool}
    (narrower : a.instanceOf (function qs s v) = true) : ∃ ps r u, a = function ps r u := by
  cases a with
  | function ps r u => exact ⟨ps, r, u, rfl⟩
  | _ => simp [instanceOf] at narrower

theorem instanceOf_anyFunction_iff {a : SeqType} :
    a.instanceOf anyFunction = true ↔ a.isFunction = true := by
  cases a <;> simp [instanceOf, isFunction]

mutual
theorem instanceOf_refl : (a : SeqType) → a.instanceOf a = true
  | .item | .empty | .integer | .boolean | .string | .anyFunction => rfl
  | .function ps r _ => instanceOf_function.2 ⟨instancesOf_refl ps, instanceOf_refl r⟩

theorem instancesOf_refl : (ps : List SeqType) →
    List.Forall₂ (fun p q => q.instanceOf p = true) ps ps
  | [] => .nil
  | p :: ps => .cons (instanceOf_refl p) (instancesOf_refl ps)
end

mutual
theorem instanceOf_trans : (b : SeqType) → {a c : SeqType} → a.instanceOf b = true →
    b.instanceOf c = true → a.instanceOf c = true
  | .item, _, .item, _, _ => instanceOf_item _
  | .function qs s v, a, c, hab, hbc => by
    obtain ⟨ps, r, u, rfl⟩ := eq_function_of_instanceOf hab
    obtain ⟨params, ret⟩ := instanceOf_function.1 hab
    cases c with
    | item => rfl
    | anyFunction => rfl
    | function os t w =>
      obtain ⟨params', ret'⟩ := instanceOf_function.1 hbc
      exact instanceOf_function.2 ⟨instancesOf_trans qs params params', instanceOf_trans s ret ret'⟩
    | _ => simp [instanceOf] at hbc
  | .anyFunction, a, c, hab, hbc => by
    cases c with
    | item => exact instanceOf_item a
    | anyFunction => exact hab
    | _ => simp [instanceOf] at hbc
  | .empty, a, c, hab, hbc | .integer, a, c, hab, hbc | .boolean, a, c, hab, hbc
  | .string, a, c, hab, hbc => by
    cases a <;> first | exact hbc | simp [instanceOf] at hab

theorem instancesOf_trans : (qs : List SeqType) → {ps os : List SeqType} →
    List.Forall₂ (fun p q => q.instanceOf p = true) ps qs →
    List.Forall₂ (fun q o => o.instanceOf q = true) qs os →
    List.Forall₂ (fun p o => o.instanceOf p = true) ps os
  | [], _, _, .nil, .nil => .nil
  | q :: qs, _, _, .cons hpq hpqs, .cons hqo hqos =>
    .cons (instanceOf_trans q hqo hpq) (instancesOf_trans qs hpqs hqos)
end

mutual
/-- The type with no function in it marked updating. -/
def unmarked : SeqType → SeqType
  | .function ps r _ => .function (unmarkedAll ps) (unmarked r) false
  | a => a
termination_by structural x => x

def unmarkedAll : List SeqType → List SeqType
  | [] => []
  | p :: ps => unmarked p :: unmarkedAll ps
termination_by structural x => x
end

mutual
theorem instanceOf_unmarked : (a : SeqType) →
    a.instanceOf a.unmarked = true ∧ a.unmarked.instanceOf a = true
  | .item | .empty | .integer | .boolean | .string | .anyFunction => ⟨rfl, rfl⟩
  | .function ps r _ =>
    have params := instancesOf_unmarkedAll ps
    have ret := instanceOf_unmarked r
    ⟨instanceOf_function.2 ⟨params.1, ret.1⟩, instanceOf_function.2 ⟨params.2, ret.2⟩⟩

theorem instancesOf_unmarkedAll : (ps : List SeqType) →
    List.Forall₂ (fun p q => q.instanceOf p = true) ps (unmarkedAll ps) ∧
      List.Forall₂ (fun p q => q.instanceOf p = true) (unmarkedAll ps) ps
  | [] => ⟨.nil, .nil⟩
  | p :: ps =>
    have first := instanceOf_unmarked p
    have rest := instancesOf_unmarkedAll ps
    ⟨.cons first.2 rest.1, .cons first.1 rest.2⟩
end

mutual
theorem unmarked_eq_of_instanceOf : (a : SeqType) → {b : SeqType} → a.instanceOf b = true →
    b.instanceOf a = true → a.unmarked = b.unmarked
  | .function ps r u, b, hab, hba => by
    obtain ⟨qs, s, v, rfl⟩ := eq_function_of_instanceOf hba
    obtain ⟨params, ret⟩ := instanceOf_function.1 hab
    obtain ⟨params', ret'⟩ := instanceOf_function.1 hba
    rw [unmarked, unmarked, unmarkedAll_eq_of_instancesOf ps params params',
      unmarked_eq_of_instanceOf r ret ret']
  | .item, b, hab, hba | .empty, b, hab, hba | .integer, b, hab, hba | .boolean, b, hab, hba
  | .string, b, hab, hba | .anyFunction, b, hab, hba => by
    cases b <;> first | rfl | simp [instanceOf] at hab hba

theorem unmarkedAll_eq_of_instancesOf : (ps : List SeqType) → {qs : List SeqType} →
    List.Forall₂ (fun p q => q.instanceOf p = true) ps qs →
    List.Forall₂ (fun q p => p.instanceOf q = true) qs ps → unmarkedAll ps = unmarkedAll qs
  | [], _, .nil, .nil => rfl
  | p :: ps, _, .cons h hs, .cons h' hs' => by
    rw [unmarkedAll, unmarkedAll, unmarked_eq_of_instanceOf p h' h,
      unmarkedAll_eq_of_instancesOf ps hs hs']
end

theorem instanceOf_antisymm_iff (a b : SeqType) :
    a.instanceOf b = true ∧ b.instanceOf a = true ↔ a.unmarked = b.unmarked := by
  refine ⟨fun ⟨hab, hba⟩ => unmarked_eq_of_instanceOf a hab hba, fun same => ?_⟩
  have first := instanceOf_unmarked a
  have second := instanceOf_unmarked b
  rw [same] at first
  exact ⟨instanceOf_trans _ first.1 second.2, instanceOf_trans _ second.1 first.2⟩

theorem instanceOf_union (a b : SeqType) :
    a.instanceOf (a.union b) = true ∧ b.instanceOf (a.union b) = true := by
  unfold union
  split
  · rename_i narrower
    exact ⟨narrower, instanceOf_refl b⟩
  · split
    · rename_i narrower
      exact ⟨instanceOf_refl a, narrower⟩
    · split
      · rename_i functions
        rw [Bool.and_eq_true] at functions
        exact ⟨instanceOf_anyFunction_iff.2 functions.1, instanceOf_anyFunction_iff.2 functions.2⟩
      · exact ⟨instanceOf_item a, instanceOf_item b⟩

/-- Subtyping is a preorder, in which types are equivalent if they differ in updating flags at most. It
agrees with matching at run time: what is matched by a type is matched by every wider one, and every
value by its own type. The type of a conditional is above the types of both branches. -/
theorem subtyping_laws :
    (∀ a : SeqType, a.instanceOf a = true) ∧
    (∀ a b c : SeqType, a.instanceOf b = true → b.instanceOf c = true → a.instanceOf c = true) ∧
    (∀ a b : SeqType, a.instanceOf b = true ∧ b.instanceOf a = true ↔ a.unmarked = b.unmarked) ∧
    (∀ (a b : SeqType) (v : Value), a.instanceOf b = true → a.accepts v = true →
      b.accepts v = true) ∧
    (∀ v : Value, v.seqType.accepts v = true) ∧
    ∀ a b : SeqType, a.instanceOf (a.union b) = true ∧ b.instanceOf (a.union b) = true :=
  ⟨instanceOf_refl, fun _ b _ => instanceOf_trans b, instanceOf_antisymm_iff,
    fun _ _ _ => accepts_of_instanceOf, Value.accepts_seqType, instanceOf_union⟩

def transformer (param ret : SeqType) (updating : Bool) : SeqType :=
  .function [.function [.integer] param updating] (.function [.integer] ret updating) updating

/-- A chain of types that take and give functions; the last two differ in flags only. -/
theorem subtyping_laws_nested :
    (transformer .item .integer false).instanceOf (transformer .integer .item true) = true ∧
      (transformer .integer .item false).instanceOf (transformer .integer .item true) = true ∧
      (transformer .integer .item true).accepts
        (.func (((FuncItem.ofBuiltin .count).run {}).1)) = true := by
  obtain ⟨refl, trans, equivalent, matching, own, -⟩ := subtyping_laws
  have narrower : (transformer .item .integer false).instanceOf (transformer .integer .item false) = true :=
    by decide
  have same := (equivalent (transformer .integer .item false) (transformer .integer .item true)).2
    (by decide)
  have whole := trans _ _ _ narrower same.1
  exact ⟨whole, same.1, matching _ _ _ whole (by decide)⟩

end SeqType

end QueryFunctions
