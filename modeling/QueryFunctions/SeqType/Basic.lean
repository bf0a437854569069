/-! Sequence types: what is known statically about an expression or a variable. Atomic types, the
empty sequence and function types are told apart, occurrence counts are not. Function types are
compared with parameters the other way round and results the same way round; whether a function
is updating plays no part in subtyping. -/
namespace QueryFunctions

inductive SeqType where
  /-- Any sequence, `item()*`. -/
  | item
  | empty
  | integer
  | boolean
  | string
  /-- Any function, `function(*)`. -/
  | anyFunction
  | function (params : List SeqType) (ret : SeqType) (updating : Bool)
deriving Inhabited, Repr

namespace SeqType

mutual
def same : SeqType → SeqType → Bool
  | .item, .item | .empty, .empty | .integer, .integer | .boolean, .boolean
  | .string, .string | .anyFunction, .anyFunction => true
  | .function ps r u, .function qs s v => sameAll ps qs && same r s && u == v
  | _, _ => false
termination_by structural x => x

def sameAll : List SeqType → List SeqType → Bool
  | [], [] => true
  | p :: ps, q :: qs => same p q && sameAll ps qs
  | _, _ => false
termination_by structural x => x
end

mutual
theorem same_iff : (a b : SeqType) → (same a b = true ↔ a = b)
  | .function ps r u, .function qs s v => by
    simp [same, sameAll_iff ps qs, same_iff r s, and_assoc]
  | .item, b | .empty, b | .integer, b | .boolean, b | .string, b | .anyFunction, b => by
    cases b <;> simp [same]
  | .function _ _ _, .item | .function _ _ _, .empty | .function _ _ _, .integer
  | .function _ _ _, .boolean | .function _ _ _, .string | .function _ _ _, .anyFunction => by
    simp [same]

theorem sameAll_iff : (ps qs : List SeqType) → (sameAll ps qs = true ↔ ps = qs)
  | [], [] | [], _ :: _ | _ :: _, [] => by simp [sameAll]
  | p :: ps, q :: qs => by simp [sameAll, same_iff p q, sameAll_iff ps qs]
end

instance : DecidableEq SeqType := fun a b => decidable_of_iff _ (same_iff a b)

end SeqType

/-- The signature of a function value. -/
structure FuncType where
  params : List SeqType
  ret : SeqType
  updating : Bool
deriving DecidableEq, Repr

namespace FuncType

/-- The signature with `arity` parameters that promises nothing. -/
def untyped (arity : Nat) : FuncType := ⟨.replicate arity .item, .item, false⟩

def arity (t : FuncType) : Nat := t.params.length

def toSeqType (t : FuncType) : SeqType := .function t.params t.ret t.updating

theorem arity_untyped (n : Nat) : (untyped n).arity = n := by simp [untyped, arity]

end FuncType

namespace SeqType

def funcType? : SeqType → Option FuncType
  | .function ps r u => some ⟨ps, r, u⟩
  | _ => none

theorem funcType?_toSeqType (t : FuncType) : t.toSeqType.funcType? = some t := rfl

def isFunction : SeqType → Bool
  | .anyFunction | .function _ _ _ => true
  | _ => false

mutual
/-- Every value of the first type is one of the second. -/
def instanceOf : SeqType → SeqType → Bool
  | _, .item => true
  | .empty, .empty | .integer, .integer | .boolean, .boolean | .string, .string => true
  | .anyFunction, .anyFunction | .function _ _ _, .anyFunction => true
  | .function ps r _, .function qs s _ => coverAll ps qs && instanceOf r s
  | _, _ => false
termination_by structural x => x

/-- The same relation read from the wider type, so that both directions recurse on it. -/
def covers : SeqType → SeqType → Bool
  | .item, _ => true
  | .empty, .empty | .integer, .integer | .boolean, .boolean | .string, .string => true
  | .anyFunction, .anyFunction | .anyFunction, .function _ _ _ => true
  | .function ps r _, .function qs s _ => instancesOf ps qs && covers r s
  | _, _ => false
termination_by structural x => x

def instancesOf : List SeqType → List SeqType → Bool
  | [], [] => true
  | p :: ps, q :: qs => instanceOf p q && instancesOf ps qs
  | _, _ => false
termination_by structural x => x

def coverAll : List SeqType → List SeqType → Bool
  | [], [] => true
  | p :: ps, q :: qs => covers p q && coverAll ps qs
  | _, _ => false
termination_by structural x => x
end

mutual
theorem covers_eq_instanceOf : (a b : SeqType) → covers a b = instanceOf b a
  | .function ps r u, .function qs s v => by
    rw [covers, instanceOf, instancesOf_eq_coverAll ps qs, covers_eq_instanceOf r s]
  | .item, b | .empty, b | .integer, b | .boolean, b | .string, b | .anyFunction, b => by
    cases b <;> simp [covers, instanceOf]
  | .function _ _ _, .item | .function _ _ _, .empty | .function _ _ _, .integer
  | .function _ _ _, .boolean | .function _ _ _, .string | .function _ _ _, .anyFunction => by
    simp [covers, instanceOf]

theorem instancesOf_eq_coverAll : (ps qs : List SeqType) → instancesOf ps qs = coverAll qs ps
  | [], [] | [], _ :: _ | _ :: _, [] => rfl
  | p :: ps, q :: qs => by
    rw [instancesOf, coverAll, instancesOf_eq_coverAll ps qs, ← instanceOf_eq_covers p q]

theorem instanceOf_eq_covers : (a b : SeqType) → instanceOf a b = covers b a
  | .function ps r u, .function qs s v => by
    rw [covers, instanceOf, coverAll_eq_instancesOf ps qs, instanceOf_eq_covers r s]
  | .item, b | .empty, b | .integer, b | .boolean, b | .string, b | .anyFunction, b => by
    cases b <;> simp [covers, instanceOf]
  | .function _ _ _, .item | .function _ _ _, .empty | .function _ _ _, .integer
  | .function _ _ _, .boolean | .function _ _ _, .string | .function _ _ _, .anyFunction => by
    simp [covers, instanceOf]

theorem coverAll_eq_instancesOf : (ps qs : List SeqType) → coverAll ps qs = instancesOf qs ps
  | [], [] | [], _ :: _ | _ :: _, [] => rfl
  | p :: ps, q :: qs => by
    rw [instancesOf, coverAll, coverAll_eq_instancesOf ps qs, covers_eq_instanceOf p q]
end

/-- The type that two branches of a conditional have in common. -/
def union (a b : SeqType) : SeqType :=
  if a.instanceOf b then b
  else if b.instanceOf a then a
  else if a.isFunction && b.isFunction then .anyFunction
  else .item

end SeqType

namespace FuncType

/-- Equal arity, parameters at least as wide, a result at most as wide. -/
def instanceOf (a b : FuncType) : Bool := a.toSeqType.instanceOf b.toSeqType

end FuncType

end QueryFunctions
