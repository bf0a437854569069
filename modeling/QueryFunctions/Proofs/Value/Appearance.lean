import Mathlib.Order.Defs.LinearOrder
import QueryFunctions.Value.Arithmetic
import QueryFunctions.Value.Comparison

/-! What an operation on values can tell of a function item: its name, its type and its annotations.
Values with the same appearance have the same text and the same type, and operations on them give the
same results and the same errors. -/
namespace QueryFunctions

namespace FuncItem

/-- The item with nothing but what an operation can tell of it. -/
def facade (f : FuncItem) : FuncItem where
  id := ⟨0⟩
  origin := ⟨0⟩
  name := f.name
  type := f.type
  annotations := f.annotations
  span := .synthetic
  code := .builtin .count

theorem arity_facade (f : FuncItem) : f.facade.arity = f.arity := rfl

/-- No operation on function items tells the two apart, unless it is a call. -/
def LooksLike (f g : FuncItem) : Prop := f.facade = g.facade

namespace LooksLike

variable {f g : FuncItem} (h : f.LooksLike g)

include h

theorem type_eq : g.type = f.type := (congrArg FuncItem.type h).symm

theorem annotations_eq : g.annotations = f.annotations := (congrArg FuncItem.annotations h).symm

theorem arity_eq : g.arity = f.arity := congrArg FuncType.arity (type_eq h)

theorem isUpdating_eq : g.isUpdating = f.isUpdating :=
  congrArg Annotations.updating (annotations_eq h)

theorem text_eq : g.text = f.text := (congrArg FuncItem.text h :).symm

theorem ofName_eq : Value.ofName g = Value.ofName f := (congrArg Value.ofName h :).symm

end LooksLike

end FuncItem

mutual
def Value.facade : Value → Value
  | .int i => .int i
  | .bool b => .bool b
  | .str s => .str s
  | .seq vs => .seq (facades vs)
  | .func f => .func f.facade
termination_by structural x => x

def facades : List Value → List Value
  | [] => []
  | v :: vs => v.facade :: facades vs
termination_by structural x => x
end

namespace Value

variable (v w : Value) (span : Span)

theorem typeName_facade : v.facade.typeName = v.typeName := by
  cases v with
  | seq vs => cases vs <;> rfl
  | int _ | bool _ | str _ | func _ => rfl

theorem isEmpty_facade : v.facade.isEmpty = v.isEmpty := by
  cases v with
  | seq vs => cases vs <;> rfl
  | int _ | bool _ | str _ | func _ => rfl

theorem seqType_facade : v.facade.seqType = v.seqType := by
  cases v with
  | seq vs => cases vs <;> rfl
  | int _ | bool _ | str _ | func _ => rfl

theorem asInt_facade : v.facade.asInt span = v.asInt span := by
  cases v with
  | seq vs => cases vs <;> rfl
  | int _ | bool _ | str _ | func _ => rfl

theorem ebv_facade : v.facade.ebv span = v.ebv span := by
  cases v with
  | seq vs => cases vs <;> rfl
  | int _ | bool _ | str _ | func _ => rfl

theorem order_facade : v.facade.order w.facade span = v.order w span := by
  have left := v.typeName_facade
  have right := w.typeName_facade
  cases v <;> cases w <;> simp only [facade] at left right <;> simp only [facade, order, left, right]

mutual
theorem text_facade : (v : Value) → v.facade.text = v.text
  | .int _ | .bool _ | .str _ | .func _ => rfl
  | .seq vs => by rw [facade, text, text, listText_facades vs]

theorem listText_facades : (vs : List Value) → listText (facades vs) = listText vs
  | [] => rfl
  | [v] => by rw [facades, facades, listText, listText, text_facade v]
  | v :: w :: vs => by
    have rest := listText_facades (w :: vs)
    rw [facades] at rest
    rw [facades, facades, listText, listText, text_facade v, rest]
end

end Value

theorem SeqType.accepts_facade (type : SeqType) (v : Value) :
    type.accepts v.facade = type.accepts v := by
  have empty := v.isEmpty_facade
  cases type <;> cases v <;> simp only [Value.facade] at empty <;>
    simp only [Value.facade, accepts, empty, FuncItem.arity_facade]

theorem CompareOp.apply_facade (op : CompareOp) (v w : Value) (span : Span) :
    op.apply v.facade w.facade span = op.apply v w span := by
  simp only [apply, Value.isEmpty_facade, Value.order_facade]

theorem ArithOp.apply_facade (op : ArithOp) (v w : Value) (span : Span) :
    op.apply v.facade w.facade span = op.apply v w span := by
  simp only [apply, Value.isEmpty_facade, Value.asInt_facade]

/-- No operation tells the two values apart. -/
def Value.LooksLike (v w : Value) : Prop := v.facade = w.facade

namespace Value.LooksLike

variable {v w v' w' : Value} (h : v.LooksLike w)

include h

theorem typeName_eq : w.typeName = v.typeName := by rw [← w.typeName_facade, ← h, typeName_facade]

theorem seqType_eq : w.seqType = v.seqType := by rw [← w.seqType_facade, ← h, seqType_facade]

theorem text_eq : w.text = v.text := by rw [← w.text_facade, ← h, text_facade]

theorem asInt_eq (span : Span) : w.asInt span = v.asInt span := by
  rw [← w.asInt_facade, ← h, asInt_facade]

theorem ebv_eq (span : Span) : w.ebv span = v.ebv span := by rw [← w.ebv_facade, ← h, ebv_facade]

theorem accepts_eq (type : SeqType) : type.accepts w = type.accepts v := by
  rw [← type.accepts_facade w, ← h, type.accepts_facade]

theorem compare_eq (h' : v'.LooksLike w') (op : CompareOp) (span : Span) :
    op.apply w w' span = op.apply v v' span := by
  rw [← op.apply_facade w, ← h, ← h', op.apply_facade]

theorem arith_eq (h' : v'.LooksLike w') (op : ArithOp) (span : Span) :
    op.apply w w' span = op.apply v v' span := by
  rw [← op.apply_facade w, ← h, ← h', op.apply_facade]

end Value.LooksLike

end QueryFunctions
