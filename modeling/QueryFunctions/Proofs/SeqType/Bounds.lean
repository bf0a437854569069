import QueryFunctions.Proofs.SeqType.Subtyping

/-! Least common types. Any two types have one; for two signatures it is made of the greatest types below
their parameters and the least type above their results, at every level in turn. A type below two
others need not exist, since nothing is below two atomic types. The type of a conditional falls short
of the least one exactly where two signatures have a signature in common and neither is an instance
of the other. -/
namespace QueryFunctions

namespace SeqType

mutual
/-- The least type that both types are instances of. -/
def upper : SeqType → SeqType → SeqType
  | .empty, .empty => .empty
  | .integer, .integer => .integer
  | .boolean, .boolean => .boolean
  | .string, .string => .string
  | .anyFunction, .anyFunction | .anyFunction, .function _ _ _
  | .function _ _ _, .anyFunction => .anyFunction
  | .function ps r u, .function qs s v =>
    match lowerAll? ps qs with
    | some os => .function os (upper r s) (u && v)
    | none => .anyFunction
  | _, _ => .item
termination_by structural x => x

/-- The greatest instance of both types, if they have one. -/
def lower? : SeqType → SeqType → Option SeqType
  | .item, b => some b
  | a, .item => some a
  | .empty, .empty => some .empty
  | .integer, .integer => some .integer
  | .boolean, .boolean => some .boolean
  | .string, .string => some .string
  | .anyFunction, .anyFunction => some .anyFunction
  | .anyFunction, .function qs s v => some (.function qs s v)
  | .function ps r u, .anyFunction => some (.function ps r u)
  | .function ps r u, .function qs s v => do
    let os ← upperAll? ps qs
    let t ← lower? r s
    return .function os t (u && v)
  | _, _ => none
termination_by structural x => x

def lowerAll? : List SeqType → List SeqType → Option (List SeqType)
  | [], [] => some []
  | p :: ps, q :: qs => do
    let o ← lower? p q
    let os ← lowerAll? ps qs
    return o :: os
  | _, _ => none
termination_by structural x => x

def upperAll? : List SeqType → List SeqType → Option (List SeqType)
  | [], [] => some []
  | p :: ps, q :: qs => do
    let os ← upperAll? ps qs
    return upper p q :: os
  | _, _ => none
termination_by structural x => x
end

theorem upper_function {ps qs : List SeqType} {r s : SeqType} {u v : Bool} :
    upper (function ps r u) (function qs s v) = match lowerAll? ps qs with
      | some os => .function os (upper r s) (u && v)
      | none => .anyFunction := rfl

theorem lower?_function {ps qs : List SeqType} {r s : SeqType} {u v : Bool} {l : SeqType} :
    lower? (function ps r u) (function qs s v) = some l ↔
      ∃ os t, upperAll? ps qs = some os ∧ lower? r s = some t ∧ l = function os t (u && v) := by
  simp only [lower?, Option.bind_eq_bind, Option.bind_eq_some_iff, Option.pure_def,
    Option.some.injEq]
  constructor
  · rintro ⟨os, hos, t, ht, rfl⟩
    exact ⟨os, t, hos, ht, rfl⟩
  · rintro ⟨os, t, hos, ht, rfl⟩
    exact ⟨os, hos, t, ht, rfl⟩

mutual
theorem upper_instanceOf_iff : (a b c : SeqType) →
    ((upper a b).instanceOf c = true ↔ a.instanceOf c = true ∧ b.instanceOf c = true)
  | .function ps r u, .function qs s v, c => by
    rw [upper_function]
    cases c with
    | function os t w =>
      have params := exists_lowerAll?_iff ps qs os
      rw [instanceOf_function, instanceOf_function]
      cases known : lowerAll? ps qs with
      | none =>
        simp only [known, reduceCtorEq, false_and, exists_false, false_iff] at params
        simp only [instanceOf, Bool.false_eq_true, false_iff]
        exact fun both => params ⟨both.1.1, both.2.1⟩
      | some ls =>
        simp only [known, Option.some.injEq, exists_eq_left'] at params
        rw [instanceOf_function, params, upper_instanceOf_iff r s t, and_and_and_comm]
    | _ => cases lowerAll? ps qs <;> simp [instanceOf]
  | .item, b, c | .empty, b, c | .integer, b, c | .boolean, b, c | .string, b, c
  | .anyFunction, b, c => by
    cases b <;> cases c <;> simp [upper, instanceOf]
  | .function _ _ _, .item, c | .function _ _ _, .empty, c | .function _ _ _, .integer, c
  | .function _ _ _, .boolean, c | .function _ _ _, .string, c
  | .function _ _ _, .anyFunction, c => by
    cases c <;> simp [upper, instanceOf]

theorem exists_lower?_iff : (a b c : SeqType) →
    ((∃ l, lower? a b = some l ∧ c.instanceOf l = true) ↔
      c.instanceOf a = true ∧ c.instanceOf b = true)
  | .function ps r u, .function qs s v, c => by
    simp only [lower?_function]
    cases c with
    | function os t w =>
      have params := exists_upperAll?_iff ps qs os
      have ret := exists_lower?_iff r s t
      rw [instanceOf_function, instanceOf_function, and_and_and_comm, ← params, ← ret]
      constructor
      · rintro ⟨_, ⟨us, l, hus, hl, rfl⟩, narrower⟩
        obtain ⟨each, last⟩ := instanceOf_function.1 narrower
        exact ⟨⟨us, hus, each⟩, l, hl, last⟩
      · rintro ⟨⟨us, hus, each⟩, l, hl, last⟩
        exact ⟨_, ⟨us, l, hus, hl, rfl⟩, instanceOf_function.2 ⟨each, last⟩⟩
    | _ =>
      simp only [instanceOf, Bool.false_eq_true, false_and, iff_false]
      rintro ⟨_, ⟨_, _, _, _, rfl⟩, narrower⟩
      cases narrower
  | .item, b, c | .empty, b, c | .integer, b, c | .boolean, b, c | .string, b, c
  | .anyFunction, b, c => by
    cases b <;> cases c <;> simp [lower?, instanceOf]
  | .function _ _ _, .item, c | .function _ _ _, .empty, c | .function _ _ _, .integer, c
  | .function _ _ _, .boolean, c | .function _ _ _, .string, c
  | .function _ _ _, .anyFunction, c => by
    cases c <;> simp [lower?, instanceOf]

theorem exists_lowerAll?_iff : (ps qs os : List SeqType) →
    ((∃ ls, lowerAll? ps qs = some ls ∧ List.Forall₂ (fun l o => o.instanceOf l = true) ls os) ↔
      List.Forall₂ (fun p o => o.instanceOf p = true) ps os ∧
        List.Forall₂ (fun q o => o.instanceOf q = true) qs os)
  | [], [], os => by simp [lowerAll?]
  | [], _ :: _, os | _ :: _, [], os => by cases os <;> simp [lowerAll?]
  | p :: ps, q :: qs, [] => by simp [lowerAll?, Option.bind_eq_some_iff]
  | p :: ps, q :: qs, o :: os => by
    have first := exists_lower?_iff p q o
    have rest := exists_lowerAll?_iff ps qs os
    rw [List.forall₂_cons, List.forall₂_cons, and_and_and_comm, ← first, ← rest]
    simp only [lowerAll?, Option.bind_eq_bind, Option.bind_eq_some_iff, Option.pure_def,
      Option.some.injEq]
    constructor
    · rintro ⟨_, ⟨l, hl, ls, hls, rfl⟩, each⟩
      obtain ⟨head, tail⟩ := List.forall₂_cons.1 each
      exact ⟨⟨l, hl, head⟩, ls, hls, tail⟩
    · rintro ⟨⟨l, hl, head⟩, ls, hls, tail⟩
      exact ⟨_, ⟨l, hl, ls, hls, rfl⟩, .cons head tail⟩

theorem exists_upperAll?_iff : (ps qs os : List SeqType) →
    ((∃ us, upperAll? ps qs = some us ∧ List.Forall₂ (fun o u => u.instanceOf o = true) os us) ↔
      List.Forall₂ (fun o p => p.instanceOf o = true) os ps ∧
        List.Forall₂ (fun o q => q.instanceOf o = true) os qs)
  | [], [], os => by simp [upperAll?]
  | [], _ :: _, os | _ :: _, [], os => by cases os <;> simp [upperAll?]
  | p :: ps, q :: qs, [] => by simp [upperAll?, Option.bind_eq_some_iff]
  | p :: ps, q :: qs, o :: os => by
    have first := upper_instanceOf_iff p q o
    have rest := exists_upperAll?_iff ps qs os
    rw [List.forall₂_cons, List.forall₂_cons, and_and_and_comm, ← first, ← rest]
    simp only [upperAll?, Option.bind_eq_bind, Option.bind_eq_some_iff, Option.pure_def,
      Option.some.injEq]
    constructor
    · rintro ⟨_, ⟨us, hus, rfl⟩, each⟩
      obtain ⟨head, tail⟩ := List.forall₂_cons.1 each
      exact ⟨head, us, hus, tail⟩
    · rintro ⟨head, us, hus, tail⟩
      exact ⟨_, ⟨us, hus, rfl⟩, .cons head tail⟩
end

/-- The order of two types makes no difference to the type of a conditional but for updating flags. -/
theorem unmarked_union_comm (a b : SeqType) : (a.union b).unmarked = (b.union a).unmarked := by
  unfold union
  by_cases hab : a.instanceOf b = true <;> by_cases hba : b.instanceOf a = true
  · rw [if_pos hab, if_pos hba]
    exact ((instanceOf_antisymm_iff a b).1 ⟨hab, hba⟩).symm
  · rw [if_pos hab, if_neg hba, if_pos hab]
  · rw [if_neg hab, if_pos hba, if_pos hba]
  · rw [if_neg hab, if_neg hba, if_neg hba, if_neg hab, Bool.and_comm]

theorem union_comm_iff (a b : SeqType) :
    a.union b = b.union a ↔ (a.unmarked = b.unmarked → a = b) := by
  rw [← instanceOf_antisymm_iff]
  unfold union
  by_cases hab : a.instanceOf b = true <;> by_cases hba : b.instanceOf a = true
  · rw [if_pos hab, if_pos hba]
    exact ⟨fun same _ => same.symm, fun same => (same ⟨hab, hba⟩).symm⟩
  · simp [hab, hba]
  · simp [hab, hba]
  · simp [hab, hba, Bool.and_comm]

/-- Below a type that both are instances of stands the type of the conditional, unless that type is a
signature and neither type is an instance of the other. -/
theorem union_instanceOf {a b c : SeqType} (hac : a.instanceOf c = true) (hbc : b.instanceOf c = true)
    (plain : a.instanceOf b = true ∨ b.instanceOf a = true ∨ c.funcType? = none) :
    (a.union b).instanceOf c = true := by
  unfold union
  split
  · exact hbc
  · rename_i hab
    split
    · exact hac
    · rename_i hba
      cases c with
      | item => exact instanceOf_item _
      | anyFunction =>
        rw [instanceOf_anyFunction_iff] at hac hbc
        rw [hac, hbc]
        rfl
      | function os t w => simp [hab, hba, funcType?] at plain
      | _ => cases a <;> cases b <;> simp [instanceOf] at hac hbc hab

/-- What the type of a conditional has of the least common type. It is common to both branches; their
order matters exactly if the types differ in updating flags only; and it is the least such type unless
neither type is an instance of the other and the least one, which there always is, is a signature. -/
theorem union_exact (a b : SeqType) :
    (a.instanceOf (a.union b) = true ∧ b.instanceOf (a.union b) = true) ∧
    ((a.union b).unmarked = (b.union a).unmarked ∧
      (a.union b = b.union a ↔ (a.unmarked = b.unmarked → a = b))) ∧
    (∀ c, (upper a b).instanceOf c = true ↔ a.instanceOf c = true ∧ b.instanceOf c = true) ∧
    ((∀ c, a.instanceOf c = true ∧ b.instanceOf c = true → (a.union b).instanceOf c = true) ↔
      a.instanceOf b = true ∨ b.instanceOf a = true ∨ (upper a b).funcType? = none) := by
  refine ⟨instanceOf_union a b, ⟨unmarked_union_comm a b, union_comm_iff a b⟩,
    upper_instanceOf_iff a b, fun least => ?_, fun plain c above => ?_⟩
  · by_contra apart
    simp only [not_or, Option.ne_none_iff_exists'] at apart
    obtain ⟨hab, hba, sig, typed⟩ := apart
    have narrower := least _ ((upper_instanceOf_iff a b _).1 (instanceOf_refl _))
    obtain ⟨f, here, -⟩ := funcType?_of_instanceOf narrower typed
    unfold union at here
    rw [if_neg hab, if_neg hba] at here
    split at here <;> cases here
  · rcases plain with hab | hba | untyped
    · exact union_instanceOf above.1 above.2 (.inl hab)
    · exact union_instanceOf above.1 above.2 (.inr (.inl hba))
    · by_cases signature : c.funcType? = none
      · exact union_instanceOf above.1 above.2 (.inr (.inr signature))
      · obtain ⟨sig, typed⟩ := Option.ne_none_iff_exists'.1 signature
        obtain ⟨f, here, -⟩ := funcType?_of_instanceOf ((upper_instanceOf_iff a b c).2 above) typed
        rw [untyped] at here
        cases here

def ofInteger (ret : SeqType) (updating : Bool) : SeqType := .function [.integer] ret updating

/-- The signature that functions with integer and boolean results have in common is missed, and so is the
one flag in which two signatures differ. -/
theorem not_union_least : ¬∀ a b : SeqType, a.union b = b.union a ∧
    ∀ c, a.instanceOf c = true → b.instanceOf c = true → (a.union b).instanceOf c = true := by
  intro all
  have least := (all (ofInteger .integer false) (ofInteger .boolean false)).2
    (ofInteger .item false) (by decide) (by decide)
  exact absurd least (by decide)

/-- The least common type of those functions. -/
example : upper (ofInteger .integer false) (ofInteger .boolean false) = ofInteger .item false := by
  decide

/-- One order keeps the flag and the other does not. -/
example : union (ofInteger .item true) (ofInteger .item false) ≠
    union (ofInteger .item false) (ofInteger .item true) := by decide

end SeqType

end QueryFunctions
