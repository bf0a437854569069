import QueryFunctions.Expr.Static

/-! Equality of expressions and values: structural, except that function items are equal if and
only if they are one item. -/
namespace QueryFunctions

mutual
def Value.same : Value → Value → Bool
  | .int a, .int b => a == b
  | .bool a, .bool b => a == b
  | .str a, .str b => a == b
  | .seq as, .seq bs => sameValues as bs
  | .func f, .func g => f.id == g.id
  | _, _ => false
termination_by structural x => x

def sameValues : List Value → List Value → Bool
  | [], [] => true
  | a :: as, b :: bs => a.same b && sameValues as bs
  | _, _ => false
termination_by structural x => x
end

mutual
def Expr.same : Expr → Expr → Bool
  | .value a, .value b => a.same b
  | .var a, .var b => a == b
  | .letIn a s v b, .letIn a' s' v' b' => a == a' && s == s' && v.same v' && b.same b'
  | .branch c y n s, .branch c' y' n' s' => c.same c' && y.same y' && n.same n' && s == s'
  | .arith o l r s, .arith o' l' r' s' => o == o' && l.same l' && r.same r' && s == s'
  | .compare o l r s, .compare o' l' r' s' => o == o' && l.same l' && r.same r' && s == s'
  | .seq as, .seq bs => sameList as bs
  | .focus s, .focus s' => s == s'
  | .treat e t s, .treat e' t' s' => e.same e' && t == t' && s == s'
  | .builtin f as s, .builtin f' as' s' => f == f' && sameList as as' && s == s'
  | .error e, .error e' => e == e'
  | .closure c, .closure c' => c.same c'
  | .literal s c, .literal s' c' => s == s' && c.same c'
  | .partialApply s t as, .partialApply s' t' as' => s == s' && t.same t' && sameList as as'
  | .call s as, .call s' as' => s == s' && sameList as as'
  | .dynamicCall s c as, .dynamicCall s' c' as' => s == s' && c.same c' && sameList as as'
  | _, _ => false
termination_by structural x => x

def sameList : List Expr → List Expr → Bool
  | [], [] => true
  | a :: as, b :: bs => a.same b && sameList as bs
  | _, _ => false
termination_by structural x => x

def Closure.same : Closure → Closure → Bool
  | ⟨n, p, b, d, a, s, c, o, k, w⟩, ⟨n', p', b', d', a', s', c', o', k', w'⟩ =>
    n == n' && p == p' && b.same b' && d == d' && a == a' && s.same s' && sameSupplies c c' &&
      o == o' && k == k' && w == w'
termination_by structural x => x

def sameSupplies : List (VarId × Expr) → List (VarId × Expr) → Bool
  | [], [] => true
  | (i, a) :: as, (j, b) :: bs => i == j && a.same b && sameSupplies as bs
  | _, _ => false
termination_by structural x => x
end

mutual
theorem Value.same_refl : (v : Value) → v.same v = true
  | .int _ | .bool _ | .str _ | .func _ => by simp [Value.same]
  | .seq vs => by simp [Value.same, sameValues_refl vs]

theorem sameValues_refl : (vs : List Value) → sameValues vs vs = true
  | [] => rfl
  | v :: vs => by simp [sameValues, v.same_refl, sameValues_refl vs]
end

end QueryFunctions
