import QueryFunctions.Expr.Copy
import QueryFunctions.Proofs.Expr.Nodes
import QueryFunctions.Proofs.Form.Basic
import QueryFunctions.Proofs.Law.Supplied
import QueryFunctions.Proofs.Standard.Copying

/-! The functions that code calls or names, anywhere inside of it: in closures, in the literals that
stand for functions and in the bodies of function items as well. Copies name what the original names:
variables are replaced, functions are not. -/
namespace QueryFunctions

namespace Expr

/-- A call or a literal of the function stands somewhere in the code. -/
def Names (e : Expr) (id : FuncId) : Prop := ∃ x, e.Includes x ∧ x.isUseOf id = true

def Within (P : FuncId → Prop) (e : Expr) : Prop := ∀ id, e.Names id → P id

end Expr

def Value.Within (P : FuncId → Prop) (v : Value) : Prop := (Expr.value v).Within P

def Closure.Within (P : FuncId → Prop) (c : Closure) : Prop :=
  (∀ q ∈ c.captures, q.2.Within P) ∧ c.body.Within P

def FuncItem.Within (P : FuncId → Prop) (f : FuncItem) : Prop :=
  ∀ params captured body scope, f.code = .closure params captured body scope →
    (∀ q ∈ captured, q.2.Within P) ∧ body.Within P

variable {P Q : FuncId → Prop}

theorem Closure.within_parts (c : Closure) :
    (∀ p ∈ c.captures.map Prod.snd ++ [c.body], p.Within P) ↔ c.Within P := by
  rw [List.forall_mem_append, List.forall_mem_map, List.forall_mem_singleton]
  rfl

namespace Expr

theorem Within.mono {e : Expr} (h : e.Within P) (weaker : ∀ id, P id → Q id) : e.Within Q :=
  fun id names => weaker id (h id names)

theorem Within.part {e p : Expr} (h : e.Within P) (mem : p ∈ e.parts) : p.Within P :=
  fun id ⟨x, includes, use⟩ => h id ⟨x, .part mem includes, use⟩

theorem Within.own {e : Expr} (h : e.Within P) {id : FuncId} (use : e.isUseOf id = true) : P id :=
  h id ⟨e, .self, use⟩

/-- What an expression names is named by itself or by its parts, unless it is a constant. -/
theorem within_iff {e : Expr} (code : ∀ v, e ≠ .value v) :
    e.Within P ↔ (∀ id, e.isUseOf id = true → P id) ∧ ∀ p ∈ e.parts, p.Within P := by
  refine ⟨fun h => ⟨fun id => h.own, fun p => h.part⟩, fun ⟨own, parts⟩ id ⟨x, includes, use⟩ => ?_⟩
  cases includes with
  | self => exact own id use
  | part mem includes => exact parts _ mem id ⟨x, includes, use⟩
  | item => exact absurd rfl (code _)

theorem within_iff_parts {e : Expr} (code : ∀ v, e ≠ .value v) (plain : ∀ id, e.isUseOf id = false) :
    e.Within P ↔ ∀ p ∈ e.parts, p.Within P := by
  refine (within_iff code).trans ⟨And.right, fun parts => ⟨fun id use => ?_, parts⟩⟩
  rw [plain] at use
  cases use

@[simp] theorem within_var {ref : VarRef} : (Expr.var ref).Within P :=
  (within_iff_parts (by nofun) fun _ => rfl).2 nofun

@[simp] theorem within_focus {span : Span} : (Expr.focus span).Within P :=
  (within_iff_parts (by nofun) fun _ => rfl).2 nofun

@[simp] theorem within_error {e : QueryError} : (Expr.error e).Within P :=
  (within_iff_parts (by nofun) fun _ => rfl).2 nofun

@[simp] theorem within_letIn {id : VarId} {slot : Nat} {bound body : Expr} :
    (Expr.letIn id slot bound body).Within P ↔ bound.Within P ∧ body.Within P :=
  (within_iff_parts (by nofun) fun _ => rfl).trans (by simp [parts])

@[simp] theorem within_branch {cond yes no : Expr} {span : Span} :
    (Expr.branch cond yes no span).Within P ↔ cond.Within P ∧ yes.Within P ∧ no.Within P :=
  (within_iff_parts (by nofun) fun _ => rfl).trans (by simp [parts])

@[simp] theorem within_arith {op : ArithOp} {lhs rhs : Expr} {span : Span} :
    (Expr.arith op lhs rhs span).Within P ↔ lhs.Within P ∧ rhs.Within P :=
  (within_iff_parts (by nofun) fun _ => rfl).trans (by simp [parts])

@[simp] theorem within_compare {op : CompareOp} {lhs rhs : Expr} {span : Span} :
    (Expr.compare op lhs rhs span).Within P ↔ lhs.Within P ∧ rhs.Within P :=
  (within_iff_parts (by nofun) fun _ => rfl).trans (by simp [parts])

@[simp] theorem within_seq {items : List Expr} :
    (Expr.seq items).Within P ↔ ∀ e ∈ items, e.Within P :=
  within_iff_parts (by nofun) fun _ => rfl

@[simp] theorem within_treat {e : Expr} {type : SeqType} {span : Span} :
    (Expr.treat e type span).Within P ↔ e.Within P :=
  (within_iff_parts (by nofun) fun _ => rfl).trans List.forall_mem_singleton

@[simp] theorem within_builtin {b : Builtin} {args : List Expr} {span : Span} :
    (Expr.builtin b args span).Within P ↔ ∀ e ∈ args, e.Within P :=
  within_iff_parts (by nofun) fun _ => rfl

@[simp] theorem within_closure {c : Closure} : (Expr.closure c).Within P ↔ c.Within P :=
  (within_iff_parts (by nofun) fun _ => rfl).trans c.within_parts

@[simp] theorem within_partialApply {site : PartialSite} {target : Expr} {args : List Expr} :
    (Expr.partialApply site target args).Within P ↔ target.Within P ∧ ∀ e ∈ args, e.Within P :=
  (within_iff_parts (by nofun) fun _ => rfl).trans List.forall_mem_cons

@[simp] theorem within_dynamicCall {site : DynamicSite} {callee : Expr} {args : List Expr} :
    (Expr.dynamicCall site callee args).Within P ↔ callee.Within P ∧ ∀ e ∈ args, e.Within P :=
  (within_iff_parts (by nofun) fun _ => rfl).trans List.forall_mem_cons

theorem forall_target {target : FuncId} : (∀ id, (target == id) = true → P id) ↔ P target := by simp

@[simp] theorem within_literal {site : LiteralSite} {c : Closure} :
    (Expr.literal site c).Within P ↔ P site.target ∧ c.Within P :=
  (within_iff (by nofun)).trans (and_congr forall_target c.within_parts)

@[simp] theorem within_call {site : CallSite} {args : List Expr} :
    (Expr.call site args).Within P ↔ P site.target ∧ ∀ e ∈ args, e.Within P :=
  (within_iff (by nofun)).trans (and_congr forall_target Iff.rfl)

@[simp] theorem within_value {v : Value} : (Expr.value v).Within P ↔ v.Within P := Iff.rfl

end Expr

namespace Value

theorem within_of_items {v : Value} (each : ∀ f, v.HasItem f → ∀ params captured body scope,
    f.code = .closure params captured body scope → body.Within P) : v.Within P := by
  rintro id ⟨x, includes, use⟩
  cases includes with
  | self => cases use
  | part mem => cases mem
  | item has code includes => exact each _ has _ _ _ _ code id ⟨x, includes, use⟩

theorem Within.item {v : Value} (h : v.Within P) {f : FuncItem} (has : v.HasItem f)
    {params : List Variable} {captured : List (Variable × Value)} {body : Expr} {scope : Scope}
    (code : f.code = .closure params captured body scope) : body.Within P :=
  fun id ⟨x, includes, use⟩ => h id ⟨x, .item has code includes, use⟩

theorem within_of_plain {v : Value} (plain : ∀ f, v.HasItem f → ∃ b, f.code = .builtin b) :
    v.Within P := by
  refine within_of_items fun f has params captured body scope code => ?_
  obtain ⟨b, other⟩ := plain f has
  cases code.symm.trans other

@[simp] theorem within_int {i : Int64} : (Value.int i).Within P := within_of_plain nofun

@[simp] theorem within_bool {b : Bool} : (Value.bool b).Within P := within_of_plain nofun

@[simp] theorem within_str {s : String} : (Value.str s).Within P := within_of_plain nofun

theorem within_func {f : FuncItem} : (Value.func f).Within P ↔ f.Within P := by
  constructor
  · intro h params captured body scope code
    refine ⟨fun q mem => within_of_items fun g has _ _ _ _ inner => ?_, h.item .item code⟩
    exact h.item (.captured code mem has) inner
  · intro h
    refine within_of_items fun g has params captured body scope code => ?_
    cases has with
    | item => exact (h _ _ _ _ code).2
    | captured outer mem has => exact ((h _ _ _ _ outer).1 _ mem).item has code

theorem within_seq {vs : List Value} : (Value.seq vs).Within P ↔ ∀ v ∈ vs, v.Within P := by
  constructor
  · exact fun h v mem => within_of_items fun f has _ _ _ _ code => h.item (.member mem has) code
  · intro h
    refine within_of_items fun f has _ _ _ _ code => ?_
    cases has with
    | member mem has => exact (h _ mem).item has code

theorem within_ofItems {vs : List Value} (all : ∀ v ∈ vs, v.Within P) :
    (Value.ofItems vs).Within P := by
  refine within_of_items fun f has _ _ _ _ code => ?_
  obtain ⟨v, mem, has⟩ := has.of_ofItems
  exact (all v mem).item has code

end Value

namespace Expr

section

variable {f : CallSite → CallSite} {g : DynamicSite → DynamicSite}
  (same : ∀ site, (f site).target = site.target)

include same

theorem Within.mapSites {e : Expr} (h : e.Within P) : (e.mapSites f g).Within P := by
  have inside : ∀ p ∈ e.parts, (p.mapSites f g).Within P :=
    fun p mem => Within.mapSites (h.part mem)
  by_cases constant : ∃ v, e = .value v
  · obtain ⟨v, rfl⟩ := constant
    exact h
  · have own (id : FuncId) (use : (e.mapSites f g).isUseOf id = true) : e.isUseOf id = true := by
      cases e <;> simp_all [Expr.mapSites, isUseOf]
    refine (within_iff fun v eq => constant ?_).2 ⟨fun id use => h.own (own id use), fun p mem => ?_⟩
    · cases e <;> cases eq
      exact ⟨_, rfl⟩
    · rw [parts_mapSites] at mem
      obtain ⟨x, among, rfl⟩ := List.mem_map.1 mem
      exact inside x among
termination_by e.nodes.length
decreasing_by exact length_nodes_lt mem

end

theorem Within.addOrigins {e : Expr} (h : e.Within P) (origins : List Origin) :
    (e.addOrigins origins).Within P := h.mapSites fun _ => rfl

theorem Within.refreshCalls {e : Expr} (h : e.Within P) (flagsOf : FuncId → Option Flags) :
    (e.refreshCalls flagsOf).Within P := h.mapSites fun site => by
  unfold CallSite.refresh
  split <;> rfl

theorem Within.markTails : {e : Expr} → e.Within P → e.markTails.Within P
  | .branch _ _ _ _, h => by
    rw [within_branch] at h
    simp only [Expr.markTails, within_branch]
    exact ⟨h.1, Within.markTails h.2.1, Within.markTails h.2.2⟩
  | .letIn _ _ _ _, h => by
    rw [within_letIn] at h
    simp only [Expr.markTails, within_letIn]
    exact ⟨h.1, Within.markTails h.2⟩
  | .call _ _, h => by simpa only [Expr.markTails, within_call] using h
  | .dynamicCall _ _ _, h => by simpa only [Expr.markTails, within_dynamicCall] using h
  | .value _, h | .var _, h | .arith _ _ _ _, h | .compare _ _ _ _, h | .seq _, h | .focus _, h
  | .treat _ _ _, h | .builtin _ _ _, h | .error _, h | .closure _, h | .literal _ _, h
  | .partialApply _ _ _, h => h

end Expr

mutual
theorem Expr.copy_within : {r : Renaming} → (e : Expr) → e.Within P → Yields (e.copy r) (·.Within P)
  | _, .value _, he => Yields.pure he
  | _, .focus _, _ => Yields.pure (by simp)
  | _, .error _, _ => Yields.pure (by simp)
  | _, .var _, _ => by
    unfold Expr.copy
    split
    · exact Yields.pure (by simp)
    · exact Yields.pure (by simp)
  | _, .letIn _ _ bound body, he => by
    rw [Expr.within_letIn] at he
    refine Yields.bind (Expr.copy_within bound he.1) fun bound' hbound => ?_
    refine Yields.bind (Expr.copy_within body he.2) fun body' hbody => Yields.pure ?_
    exact Expr.within_letIn.2 ⟨hbound, hbody⟩
  | _, .branch cond yes no _, he => by
    rw [Expr.within_branch] at he
    refine Yields.bind (Expr.copy_within cond he.1) fun cond' hcond => ?_
    refine Yields.bind (Expr.copy_within yes he.2.1) fun yes' hyes => ?_
    refine Yields.bind (Expr.copy_within no he.2.2) fun no' hno => Yields.pure ?_
    exact Expr.within_branch.2 ⟨hcond, hyes, hno⟩
  | _, .arith _ lhs rhs _, he => by
    rw [Expr.within_arith] at he
    refine Yields.bind (Expr.copy_within lhs he.1) fun lhs' hl => ?_
    refine Yields.bind (Expr.copy_within rhs he.2) fun rhs' hr => Yields.pure ?_
    exact Expr.within_arith.2 ⟨hl, hr⟩
  | _, .compare _ lhs rhs _, he => by
    rw [Expr.within_compare] at he
    refine Yields.bind (Expr.copy_within lhs he.1) fun lhs' hl => ?_
    refine Yields.bind (Expr.copy_within rhs he.2) fun rhs' hr => Yields.pure ?_
    exact Expr.within_compare.2 ⟨hl, hr⟩
  | _, .seq items, he => by
    rw [Expr.within_seq] at he
    exact Yields.bind (copyList_within items he) fun _ hitems => Yields.pure (Expr.within_seq.2 hitems)
  | _, .treat expr _ _, he => by
    rw [Expr.within_treat] at he
    exact Yields.bind (Expr.copy_within expr he) fun _ h => Yields.pure (Expr.within_treat.2 h)
  | _, .builtin _ args _, he => by
    rw [Expr.within_builtin] at he
    exact Yields.bind (copyList_within args he) fun _ h => Yields.pure (Expr.within_builtin.2 h)
  | _, .closure c, he => by
    rw [Expr.within_closure] at he
    exact Yields.bind (Closure.copy_within c he) fun _ h => Yields.pure (Expr.within_closure.2 h)
  | _, .literal _ c, he => by
    rw [Expr.within_literal] at he
    refine Yields.bind (Closure.copy_within c he.2) fun _ h => Yields.pure ?_
    exact Expr.within_literal.2 ⟨he.1, h⟩
  | _, .partialApply _ target args, he => by
    rw [Expr.within_partialApply] at he
    refine Yields.bind (Expr.copy_within target he.1) fun target' htarget => ?_
    refine Yields.bind (copyList_within args he.2) fun args' hargs => Yields.pure ?_
    exact Expr.within_partialApply.2 ⟨htarget, hargs⟩
  | _, .call _ args, he => by
    rw [Expr.within_call] at he
    refine Yields.bind (copyList_within args he.2) fun args' hargs => Yields.pure ?_
    exact Expr.within_call.2 ⟨he.1, hargs⟩
  | _, .dynamicCall _ callee args, he => by
    rw [Expr.within_dynamicCall] at he
    refine Yields.bind (Expr.copy_within callee he.1) fun callee' hcallee => ?_
    refine Yields.bind (copyList_within args he.2) fun args' hargs => Yields.pure ?_
    exact Expr.within_dynamicCall.2 ⟨hcallee, hargs⟩

theorem copyList_within : {r : Renaming} → (es : List Expr) → (∀ e ∈ es, e.Within P) →
    Yields (copyList r es) fun es' => ∀ e ∈ es', e.Within P
  | _, [], _ => Yields.pure nofun
  | _, e :: es, all => by
    refine Yields.bind (Expr.copy_within e (all e (by simp))) fun e' he => ?_
    refine Yields.bind (copyList_within es fun x mem => all x (by simp [mem])) fun es' hes => ?_
    exact Yields.pure (List.forall_mem_cons.2 ⟨he, hes⟩)

theorem Closure.copy_within : {outer : Renaming} → (c : Closure) → c.Within P →
    Yields (c.copy outer) (·.Within P)
  | _, ⟨_, params, body, _, _, scope, captures, _, _, _⟩, hc => by
    have copied : Yields (liftSupply scope.copy) fun _ => True :=
      Yields.liftSupply fun supply => ⟨(Scope.copied_variables scope.vars supply).1, trivial⟩
    refine Yields.bind copied fun p _ => ?_
    have required (id : VarId) : Yields (do return (← p.2.require id).id) fun _ => True :=
      Yields.bind (Yields.ofExcept fun _ _ => trivial) fun _ (_ : True) => Yields.pure trivial
    refine Yields.bind (Yields.mapM required params) fun params' _ => ?_
    refine Yields.bind (Expr.copy_within body hc.2) fun body' hbody => ?_
    refine Yields.bind (copySupplies_within p.2 captures hc.1) fun captures' hcaptures => ?_
    exact Yields.pure ⟨hcaptures, hbody⟩

theorem copySupplies_within : {outer : Renaming} → (inner : Renaming) →
    (es : List (VarId × Expr)) → (∀ q ∈ es, q.2.Within P) →
    Yields (copySupplies outer inner es) fun es' => ∀ q ∈ es', q.2.Within P
  | _, _, [], _ => Yields.pure nofun
  | _, inner, (id, e) :: es, all => by
    refine Yields.bind (Yields.ofExcept fun _ _ => trivial) fun v (_ : True) => ?_
    refine Yields.bind (Expr.copy_within e (all (id, e) (by simp))) fun e' he => ?_
    refine Yields.bind (copySupplies_within inner es fun q mem => all q (by simp [mem]))
      fun es' hes => Yields.pure ?_
    exact List.forall_mem_cons.2 ⟨he, hes⟩
end

end QueryFunctions
