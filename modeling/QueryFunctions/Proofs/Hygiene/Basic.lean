import QueryFunctions.Expr.Copy
import QueryFunctions.Proofs.Expr.Nodes
import QueryFunctions.Proofs.Form.Basic

/-! Where code refers to a variable. Code runs in frames of their own as far as it stands in closures and
in function items, and a variable belongs to one frame only. What stands in a constant is never run where
it stands, so it may use the same identity for a variable of its own. -/
namespace QueryFunctions

namespace Expr

/-- The parts of the expression are evaluated in the frame that it is evaluated in itself. -/
def sharesFrame : Expr → Bool
  | .value _ | .var _ | .closure _ | .literal _ _ => false
  | _ => true

/-- The code refers to the variable `id` in its own frame only, and there only if `frame` holds. If `own`
holds, closures may besides have a variable of their own that is called `id`. -/
inductive Confines (id : VarId) : (own frame : Prop) → Expr → Prop
  | value {own frame v} : (∀ f params captured body scope, v.HasItem f →
      f.code = .closure params captured body scope →
      Confines id True (scope.find? id).isSome body) → Confines id own frame (.value v)
  | var {own frame} {ref : VarRef} : (ref.id = id → frame) → Confines id own frame (.var ref)
  | closure {own frame} {c : Closure} : (∀ q ∈ c.captures, Confines id own frame q.2) →
      Confines id own (own ∧ (c.scope.find? id).isSome) c.body → Confines id own frame (.closure c)
  | literal {own frame site} {c : Closure} : (∀ q ∈ c.captures, Confines id own False q.2) →
      Confines id own (own ∧ (c.scope.find? id).isSome) c.body → Confines id own frame (.literal site c)
  | inner {own frame e} : e.sharesFrame = true → (∀ p ∈ e.parts, Confines id own frame p) →
      Confines id own frame e

end Expr

/-- The body of a function item refers to no variables named `id` but its own. -/
def FuncItem.Confines (id : VarId) (f : FuncItem) : Prop :=
  ∀ params captured body scope, f.code = .closure params captured body scope →
    body.Confines id True (scope.find? id).isSome

/-- All function items in the value, and those that they have captured, refer to no variables named `id`
but their own. -/
def Value.Confines (id : VarId) (v : Value) : Prop := ∀ f, v.HasItem f → f.Confines id

variable {id : VarId} {own own' frame frame' : Prop}

namespace Expr

theorem Confines.mono {e : Expr} (h : e.Confines id own frame) (owned : own → own')
    (framed : frame → frame') : e.Confines id own' frame' := by
  induction h generalizing own' frame' with
  | value items => exact .value items
  | var same => exact .var fun eq => framed (same eq)
  | closure _ _ captures body =>
    exact .closure (fun q mem => captures q mem owned framed) (body owned (.imp_left owned))
  | literal _ _ captures body =>
    exact .literal (fun q mem => captures q mem owned False.elim) (body owned (.imp_left owned))
  | inner shares _ parts => exact .inner shares fun p mem => parts p mem owned framed

theorem confines_value {v : Value} : (Expr.value v).Confines id own frame ↔ v.Confines id := by
  constructor
  · rintro (items | _ | _ | _ | ⟨⟨⟩, _⟩)
    exact fun f has params captured body scope => items f params captured body scope has
  · exact fun items => .value fun f params captured body scope has => items f has params captured body scope

theorem confines_var {ref : VarRef} :
    (Expr.var ref).Confines id own frame ↔ (ref.id = id → frame) := by
  refine ⟨?_, .var⟩
  rintro (_ | same | _ | _ | ⟨⟨⟩, _⟩)
  exact same

theorem confines_closure {c : Closure} : (Expr.closure c).Confines id own frame ↔
    (∀ q ∈ c.captures, q.2.Confines id own frame) ∧
      c.body.Confines id own (own ∧ (c.scope.find? id).isSome) := by
  refine ⟨?_, fun h => .closure h.1 h.2⟩
  rintro (_ | _ | ⟨captures, body⟩ | _ | ⟨⟨⟩, _⟩)
  exact ⟨captures, body⟩

theorem confines_literal {site : LiteralSite} {c : Closure} :
    (Expr.literal site c).Confines id own frame ↔ (∀ q ∈ c.captures, q.2.Confines id own False) ∧
      c.body.Confines id own (own ∧ (c.scope.find? id).isSome) := by
  refine ⟨?_, fun h => .literal h.1 h.2⟩
  rintro (_ | _ | _ | ⟨captures, body⟩ | ⟨⟨⟩, _⟩)
  exact ⟨captures, body⟩

theorem confines_inner {e : Expr} (shares : e.sharesFrame = true) :
    e.Confines id own frame ↔ ∀ p ∈ e.parts, p.Confines id own frame := by
  refine ⟨fun h => ?_, .inner shares⟩
  cases h with
  | inner _ parts => exact parts
  | value | var | closure | literal => cases shares

@[simp] theorem confines_focus {span : Span} : (Expr.focus span).Confines id own frame :=
  .inner rfl nofun

@[simp] theorem confines_error {err : QueryError} : (Expr.error err).Confines id own frame :=
  .inner rfl nofun

@[simp] theorem confines_letIn {x : VarId} {slot : Nat} {bound body : Expr} :
    (Expr.letIn x slot bound body).Confines id own frame ↔
      bound.Confines id own frame ∧ body.Confines id own frame :=
  (confines_inner rfl).trans (by simp [parts])

@[simp] theorem confines_branch {cond yes no : Expr} {span : Span} :
    (Expr.branch cond yes no span).Confines id own frame ↔
      cond.Confines id own frame ∧ yes.Confines id own frame ∧ no.Confines id own frame :=
  (confines_inner rfl).trans (by simp [parts])

@[simp] theorem confines_arith {op : ArithOp} {lhs rhs : Expr} {span : Span} :
    (Expr.arith op lhs rhs span).Confines id own frame ↔
      lhs.Confines id own frame ∧ rhs.Confines id own frame :=
  (confines_inner rfl).trans (by simp [parts])

@[simp] theorem confines_compare {op : CompareOp} {lhs rhs : Expr} {span : Span} :
    (Expr.compare op lhs rhs span).Confines id own frame ↔
      lhs.Confines id own frame ∧ rhs.Confines id own frame :=
  (confines_inner rfl).trans (by simp [parts])

@[simp] theorem confines_seq {items : List Expr} :
    (Expr.seq items).Confines id own frame ↔ ∀ e ∈ items, e.Confines id own frame :=
  confines_inner rfl

@[simp] theorem confines_treat {e : Expr} {type : SeqType} {span : Span} :
    (Expr.treat e type span).Confines id own frame ↔ e.Confines id own frame :=
  (confines_inner rfl).trans List.forall_mem_singleton

@[simp] theorem confines_builtin {b : Builtin} {args : List Expr} {span : Span} :
    (Expr.builtin b args span).Confines id own frame ↔ ∀ e ∈ args, e.Confines id own frame :=
  confines_inner rfl

@[simp] theorem confines_partialApply {site : PartialSite} {target : Expr} {args : List Expr} :
    (Expr.partialApply site target args).Confines id own frame ↔
      target.Confines id own frame ∧ ∀ e ∈ args, e.Confines id own frame :=
  (confines_inner rfl).trans List.forall_mem_cons

@[simp] theorem confines_call {site : CallSite} {args : List Expr} :
    (Expr.call site args).Confines id own frame ↔ ∀ e ∈ args, e.Confines id own frame :=
  confines_inner rfl

@[simp] theorem confines_dynamicCall {site : DynamicSite} {callee : Expr} {args : List Expr} :
    (Expr.dynamicCall site callee args).Confines id own frame ↔
      callee.Confines id own frame ∧ ∀ e ∈ args, e.Confines id own frame :=
  (confines_inner rfl).trans List.forall_mem_cons

theorem Confines.unused {e : Expr} (h : e.Confines id own frame) (unused : e.references id = false) :
    e.Confines id own False := by
  induction h with
  | value items => exact .value items
  | var _ => exact .var (beq_eq_false_iff_ne.1 unused)
  | closure _ body captures =>
    exact .closure (fun q mem => captures q mem (references_of_operand unused (List.mem_map_of_mem mem))) body
  | literal captures body => exact .literal captures body
  | @inner _ _ e shares _ parts =>
    refine .inner shares fun p mem => parts p mem (references_of_operand unused ?_)
    cases e <;> first | exact mem | cases shares

theorem Confines.unmentioned {e : Expr} (h : e.Confines id False False) : e.references id = false := by
  have apart : ∀ n ∈ e.nodes, n.isReferenceTo id = false := by
    intro n mem
    have whole : n.Confines id False False := by
      refine of_mem_nodes (P := (·.Confines id False False)) (fun e he p part => ?_) e h mem
      cases he with
      | value | var => cases part
      | inner _ parts => exact parts p part
      | closure captures body | literal captures body =>
        rcases List.mem_append.1 part with captured | last
        · obtain ⟨q, among, rfl⟩ := List.mem_map.1 captured
          exact captures q among
        · exact List.mem_singleton.1 last ▸ body.mono nofun And.left
    cases n with
    | var ref => exact beq_eq_false_iff_ne.2 (confines_var.1 whole)
    | _ => rfl
  rw [references, anyNode_eq, List.any_eq_false]
  exact fun n mem => by rw [apart n mem]; exact Bool.false_ne_true

end Expr

namespace Value

theorem confines_of_plain {v : Value} (plain : ∀ f, v.HasItem f → ∃ b, f.code = .builtin b) :
    v.Confines id := by
  intro f has params captured body scope code
  obtain ⟨b, other⟩ := plain f has
  cases code.symm.trans other

@[simp] theorem confines_int {i : Int64} : (Value.int i).Confines id := confines_of_plain nofun

@[simp] theorem confines_bool {b : Bool} : (Value.bool b).Confines id := confines_of_plain nofun

@[simp] theorem confines_str {s : String} : (Value.str s).Confines id := confines_of_plain nofun

theorem Confines.member {vs : List Value} (h : (Value.seq vs).Confines id) {v : Value} (mem : v ∈ vs) :
    v.Confines id := fun f has => h f (.member mem has)

theorem Confines.captured {f : FuncItem} (h : (Value.func f).Confines id) {params : List Variable}
    {captured : List (Variable × Value)} {body : Expr} {scope : Scope}
    (code : f.code = .closure params captured body scope) {q : Variable × Value} (mem : q ∈ captured) :
    q.2.Confines id := fun g has => h g (.captured code mem has)

theorem confines_func {f : FuncItem} (own : f.Confines id)
    (values : ∀ params captured body scope, f.code = .closure params captured body scope →
      ∀ q ∈ captured, q.2.Confines id) : (Value.func f).Confines id := by
  intro g has
  cases has with
  | item => exact own
  | captured code mem has => exact values _ _ _ _ code _ mem g has

theorem confines_seq {vs : List Value} (all : ∀ v ∈ vs, v.Confines id) : (Value.seq vs).Confines id := by
  intro f has
  cases has with
  | member mem has => exact all _ mem f has

@[simp] theorem confines_empty : Value.empty.Confines id := confines_seq nofun

theorem confines_ofItems {vs : List Value} (all : ∀ v ∈ vs, v.Confines id) :
    (Value.ofItems vs).Confines id := by
  intro f has
  obtain ⟨v, mem, has⟩ := has.of_ofItems
  exact all v mem f has

end Value

/-- Where closures keep apart from what is around them, they have none of the variables of their place. -/
def Place.Admits (w : World) (p : Place) (id : VarId) : Prop := w.apart → ¬p.claims id

mutual
theorem Value.Formed.confines {w : World} : {v : Value} → v.Formed w → v.Confines id
  | _, .int => Value.confines_int
  | _, .bool => Value.confines_bool
  | _, .str => Value.confines_str
  | _, .seq all => Value.confines_seq fun v mem => (all v mem).confines
  | _, .func hf => hf.confines

theorem FuncItem.Formed.confines {w : World} : {f : FuncItem} → f.Formed w → (Value.func f).Confines id
  | f, .builtin code => by
    refine Value.confines_func (fun _ _ _ _ other => ?_) fun _ _ _ _ other => ?_
    · cases code.symm.trans other
    · cases code.symm.trans other
  | f, .closure code _ _ _ _ values body => by
    refine Value.confines_func (fun _ _ _ _ same => ?_) fun _ _ _ _ same => ?_
    · cases code.symm.trans same
      exact body.confines.mono (fun _ => trivial) fun h => h
    · cases code.symm.trans same
      exact fun q mem => (values q mem).confines

/-- Well-formed code refers to variables of the scope that it stands in, and so do its closures. -/
theorem Expr.Formed.confines {w : World} : {p : Place} → {e : Expr} → e.Formed w p →
    e.Confines id (p.Admits w id) (p.scope.find? id).isSome
  | _, _, .value hv => Expr.confines_value.2 hv.confines
  | p, _, .var _ mem => Expr.confines_var.2 fun same =>
    Scope.isSome_find?_iff.2 (same ▸ List.mem_map_of_mem mem)
  | _, _, .letIn _ _ hbound hbody => Expr.confines_letIn.2 ⟨hbound.confines, hbody.confines⟩
  | _, _, .branch hcond hyes hno =>
    Expr.confines_branch.2 ⟨hcond.confines, hyes.confines, hno.confines⟩
  | _, _, .arith hl hr => Expr.confines_arith.2 ⟨hl.confines, hr.confines⟩
  | _, _, .compare hl hr => Expr.confines_compare.2 ⟨hl.confines, hr.confines⟩
  | _, _, .seq hitems => Expr.confines_seq.2 fun e mem => (hitems e mem).confines
  | _, _, .focus _ => Expr.confines_focus
  | _, _, .treat he => Expr.confines_treat.2 he.confines
  | _, _, .builtin hargs => Expr.confines_builtin.2 fun e mem => (hargs e mem).confines
  | _, _, .error _ => Expr.confines_error
  | _, _, .closure hc => Expr.confines_closure.2 hc.confines
  | _, _, .literal _ bare hc =>
    Expr.confines_literal.2 ⟨by rw [bare]; exact nofun, hc.confines.2⟩
  | _, _, .partialApply _ htarget hargs =>
    Expr.confines_partialApply.2 ⟨htarget.confines, fun e mem => (hargs e mem).confines⟩
  | _, _, .call _ hargs => Expr.confines_call.2 fun e mem => (hargs e mem).confines
  | _, _, .dynamicCall hcallee hargs =>
    Expr.confines_dynamicCall.2 ⟨hcallee.confines, fun e mem => (hargs e mem).confines⟩

theorem Closure.Formed.confines {w : World} : {p : Place} → {c : Closure} → c.Formed w p →
    (∀ q ∈ c.captures, q.2.Confines id (p.Admits w id) (p.scope.find? id).isSome) ∧
      c.body.Confines id (p.Admits w id) (p.Admits w id ∧ (c.scope.find? id).isSome)
  | _, _, .intro _ apart hcaptures hbody => by
    refine ⟨fun q mem => (hcaptures q mem).confines, hbody.confines.mono ?_ fun known => ⟨?_, known⟩⟩
    · exact fun admits hw claimed => admits hw (.inl claimed)
    · exact fun hw => apart hw id (Scope.isSome_find?_iff.1 known)
end

theorem Closure.Formed.confines_frame {w : World} {p : Place} {c : Closure} (hc : c.Formed w p)
    (apart : w.apart)
    (own : id ∈ c.scope.layout.map Prod.fst) : c.body.Confines id False True := by
  cases hc with
  | intro _ _ _ hbody => exact hbody.confines.mono (fun admits => admits apart (.inr own)) fun _ => trivial

end QueryFunctions
