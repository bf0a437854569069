import QueryFunctions.Proofs.Expr.Nodes

/-! Code without calls: values, variables, lets and what is computed from them by operators and by those
built-ins that call nothing. Each let has a variable and a slot that no variable in scope has. -/
namespace QueryFunctions

/-- Variables with their slots. -/
abbrev Live := List (VarId × Nat)

def Live.without (live : Live) (id : VarId) : Live := live.filter fun p => p.1 != id

def Builtin.callsBack : Builtin → Bool
  | .forEach | .filter | .foldLeft => true
  | _ => false

/-- Code without calls amid variables `live`. Its variables have the slots that `layout` tells. -/
inductive Expr.CallFree (layout : Live) : Live → Expr → Prop
  | value {live v} : CallFree layout live (.value v)
  | var {live ref} : (ref.id, ref.slot) ∈ live → CallFree layout live (.var ref)
  | focus {live span} : CallFree layout live (.focus span)
  | error {live e} : CallFree layout live (.error e)
  | letIn {live id slot bound body} : (id, slot) ∈ layout →
    (∀ p ∈ live, p.1 ≠ id ∧ p.2 ≠ slot) → CallFree layout live bound →
    CallFree layout ((id, slot) :: live) body → CallFree layout live (.letIn id slot bound body)
  | branch {live cond yes no span} : CallFree layout live cond → CallFree layout live yes →
    CallFree layout live no → CallFree layout live (.branch cond yes no span)
  | arith {live op lhs rhs span} : CallFree layout live lhs → CallFree layout live rhs →
    CallFree layout live (.arith op lhs rhs span)
  | compare {live op lhs rhs span} : CallFree layout live lhs → CallFree layout live rhs →
    CallFree layout live (.compare op lhs rhs span)
  | seq {live items} : (∀ e ∈ items, CallFree layout live e) → CallFree layout live (.seq items)
  | treat {live e type span} : CallFree layout live e → CallFree layout live (.treat e type span)
  | builtin {live function args span} : function.callsBack = false →
    (∀ e ∈ args, CallFree layout live e) → CallFree layout live (.builtin function args span)

namespace Live

variable {live : Live} {id x : VarId} {slot : Nat} {p : VarId × Nat}

theorem mem_without : p ∈ live.without id ↔ p ∈ live ∧ p.1 ≠ id := by simp [without]

theorem without_cons (apart : x ≠ id) :
    without ((x, slot) :: live) id = (x, slot) :: live.without id := by simp [without, apart]

theorem without_self (absent : ∀ p ∈ live, p.1 ≠ id) : without ((id, slot) :: live) id = live := by
  simpa [without] using absent

end Live

namespace Expr

theorem size_pos (e : Expr) : 1 ≤ e.size := by
  cases e <;> simp only [size] <;> omega

theorem size_le_listSize {e : Expr} {es : List Expr} (mem : e ∈ es) : e.size ≤ listSize es := by
  induction mem with
  | head => exact Nat.le_add_right _ _
  | tail _ _ ih => exact Nat.le_trans ih (Nat.le_add_left _ _)

namespace CallFree

variable {layout live more : Live} {e p : Expr}

theorem mono (h : e.CallFree layout live) (sub : ∀ p ∈ layout, p ∈ more) : e.CallFree more live := by
  induction h with
  | value => exact .value
  | var mem => exact .var mem
  | focus => exact .focus
  | error => exact .error
  | letIn known fresh _ _ ihv ihb => exact .letIn (sub _ known) fresh ihv ihb
  | branch _ _ _ ihc ihy ihn => exact .branch ihc ihy ihn
  | arith _ _ ihl ihr => exact .arith ihl ihr
  | compare _ _ ihl ihr => exact .compare ihl ihr
  | seq _ ih => exact .seq ih
  | treat _ ih => exact .treat ih
  | builtin calls _ ih => exact .builtin calls ih

theorem without (h : e.CallFree layout live) {id : VarId} (bound : ∃ slot, (id, slot) ∈ live)
    (absent : e.references id = false) : e.CallFree layout (live.without id) := by
  induction h with
  | value => exact .value
  | @var live ref mem =>
    refine .var (Live.mem_without.2 ⟨mem, fun same => ?_⟩)
    rw [references_var, beq_eq_false_iff_ne] at absent
    exact absent same
  | focus => exact .focus
  | error => exact .error
  | @letIn live x slot value body known fresh _ _ ihv ihb =>
    obtain ⟨slot', mem⟩ := bound
    have rest := ihb ⟨slot', List.mem_cons_of_mem _ mem⟩ (references_of_operand absent (by simp [operands]))
    rw [Live.without_cons (fresh _ mem).1.symm] at rest
    exact .letIn known (fun p among => fresh p (Live.mem_without.1 among).1)
      (ihv ⟨slot', mem⟩ (references_of_operand absent (by simp [operands]))) rest
  | branch _ _ _ ihc ihy ihn =>
    exact .branch (ihc bound (references_of_operand absent (by simp [operands])))
      (ihy bound (references_of_operand absent (by simp [operands])))
      (ihn bound (references_of_operand absent (by simp [operands])))
  | arith _ _ ihl ihr =>
    exact .arith (ihl bound (references_of_operand absent (by simp [operands])))
      (ihr bound (references_of_operand absent (by simp [operands])))
  | compare _ _ ihl ihr =>
    exact .compare (ihl bound (references_of_operand absent (by simp [operands])))
      (ihr bound (references_of_operand absent (by simp [operands])))
  | seq _ ih => exact .seq fun e mem => ih e mem bound (references_of_operand absent mem)
  | treat _ ih => exact .treat (ih bound (references_of_operand absent (by simp [operands])))
  | builtin calls _ ih =>
    exact .builtin calls fun e mem => ih e mem bound (references_of_operand absent mem)

end CallFree

end Expr

end QueryFunctions
