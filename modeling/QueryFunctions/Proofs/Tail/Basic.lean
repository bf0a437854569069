import Mathlib.Data.List.Forall2
import QueryFunctions.Expr.Sites

/-! Code in which more calls are marked as tail calls. Nothing else differs: not the identities of
variables, closures and items, and not what a call site knows of its target. -/
namespace QueryFunctions

structure CallSite.MoreTail (site site' : CallSite) : Prop where
  same : site' = { site with tail := site'.tail }
  tail : site.tail = true → site'.tail = true

structure DynamicSite.MoreTail (site site' : DynamicSite) : Prop where
  same : site' = { site with tail := site'.tail }
  tail : site.tail = true → site'.tail = true

mutual
/-- The second value is the first, with more tail calls in the code that it holds. -/
inductive Value.MoreTail : Value → Value → Prop
  | int (i : Int64) : Value.MoreTail (.int i) (.int i)
  | bool (b : Bool) : Value.MoreTail (.bool b) (.bool b)
  | str (s : String) : Value.MoreTail (.str s) (.str s)
  | seq {vs ws : List Value} : ValuesMoreTail vs ws → Value.MoreTail (.seq vs) (.seq ws)
  | func {f g : FuncItem} : FuncItem.MoreTail f g → Value.MoreTail (.func f) (.func g)

inductive ValuesMoreTail : List Value → List Value → Prop
  | nil : ValuesMoreTail [] []
  | cons {v w : Value} {vs ws : List Value} :
    Value.MoreTail v w → ValuesMoreTail vs ws → ValuesMoreTail (v :: vs) (w :: ws)

inductive FuncItem.MoreTail : FuncItem → FuncItem → Prop
  | item (id : ItemId) (origin : Origin) (name : Option String) (type : FuncType)
    (annotations : Annotations) (span : Span) {c d : Code} : Code.MoreTail c d →
    FuncItem.MoreTail ⟨id, origin, name, type, annotations, span, c⟩
      ⟨id, origin, name, type, annotations, span, d⟩

inductive Code.MoreTail : Code → Code → Prop
  | builtin (b : Builtin) : Code.MoreTail (.builtin b) (.builtin b)
  | closure (params : List Variable) (scope : Scope) {vs ws : List (Variable × Value)}
    {e e' : Expr} : CapturedMoreTail vs ws → Expr.MoreTail e e' →
    Code.MoreTail (.closure params vs e scope) (.closure params ws e' scope)

inductive CapturedMoreTail : List (Variable × Value) → List (Variable × Value) → Prop
  | nil : CapturedMoreTail [] []
  | cons (x : Variable) {v w : Value} {vs ws : List (Variable × Value)} :
    Value.MoreTail v w → CapturedMoreTail vs ws → CapturedMoreTail ((x, v) :: vs) ((x, w) :: ws)

/-- The second expression is the first, with more tail calls. -/
inductive Expr.MoreTail : Expr → Expr → Prop
  | value {v w : Value} : Value.MoreTail v w → Expr.MoreTail (.value v) (.value w)
  | var (ref : VarRef) : Expr.MoreTail (.var ref) (.var ref)
  | letIn (id : VarId) (slot : Nat) {v v' b b' : Expr} : Expr.MoreTail v v' → Expr.MoreTail b b' →
    Expr.MoreTail (.letIn id slot v b) (.letIn id slot v' b')
  | branch {c c' y y' n n' : Expr} (span : Span) : Expr.MoreTail c c' → Expr.MoreTail y y' →
    Expr.MoreTail n n' → Expr.MoreTail (.branch c y n span) (.branch c' y' n' span)
  | arith (op : ArithOp) {l l' r r' : Expr} (span : Span) : Expr.MoreTail l l' →
    Expr.MoreTail r r' → Expr.MoreTail (.arith op l r span) (.arith op l' r' span)
  | compare (op : CompareOp) {l l' r r' : Expr} (span : Span) : Expr.MoreTail l l' →
    Expr.MoreTail r r' → Expr.MoreTail (.compare op l r span) (.compare op l' r' span)
  | seq {es es' : List Expr} : ListMoreTail es es' → Expr.MoreTail (.seq es) (.seq es')
  | focus (span : Span) : Expr.MoreTail (.focus span) (.focus span)
  | treat {e e' : Expr} (type : SeqType) (span : Span) : Expr.MoreTail e e' →
    Expr.MoreTail (.treat e type span) (.treat e' type span)
  | builtin (function : Builtin) {es es' : List Expr} (span : Span) : ListMoreTail es es' →
    Expr.MoreTail (.builtin function es span) (.builtin function es' span)
  | error (e : QueryError) : Expr.MoreTail (.error e) (.error e)
  | closure {c c' : Closure} : Closure.MoreTail c c' → Expr.MoreTail (.closure c) (.closure c')
  | literal (site : LiteralSite) {c c' : Closure} : Closure.MoreTail c c' →
    Expr.MoreTail (.literal site c) (.literal site c')
  | partialApply (site : PartialSite) {e e' : Expr} {es es' : List Expr} : Expr.MoreTail e e' →
    ListMoreTail es es' → Expr.MoreTail (.partialApply site e es) (.partialApply site e' es')
  | call {site site' : CallSite} {es es' : List Expr} : site.MoreTail site' →
    ListMoreTail es es' → Expr.MoreTail (.call site es) (.call site' es')
  | dynamicCall {site site' : DynamicSite} {e e' : Expr} {es es' : List Expr} :
    site.MoreTail site' → Expr.MoreTail e e' → ListMoreTail es es' →
    Expr.MoreTail (.dynamicCall site e es) (.dynamicCall site' e' es')

inductive ListMoreTail : List Expr → List Expr → Prop
  | nil : ListMoreTail [] []
  | cons {e e' : Expr} {es es' : List Expr} :
    Expr.MoreTail e e' → ListMoreTail es es' → ListMoreTail (e :: es) (e' :: es')

inductive Closure.MoreTail : Closure → Closure → Prop
  | closure (name : Option String) (params : List VarId) (declared : Option SeqType)
    (annotations : Annotations) (scope : Scope) (origin : Origin) (compiled : Bool) (span : Span)
    {body body' : Expr} {es es' : List (VarId × Expr)} : SuppliesMoreTail es es' →
    Expr.MoreTail body body' →
    Closure.MoreTail ⟨name, params, body, declared, annotations, scope, es, origin, compiled, span⟩
      ⟨name, params, body', declared, annotations, scope, es', origin, compiled, span⟩

inductive SuppliesMoreTail : List (VarId × Expr) → List (VarId × Expr) → Prop
  | nil : SuppliesMoreTail [] []
  | cons (id : VarId) {e e' : Expr} {es es' : List (VarId × Expr)} :
    Expr.MoreTail e e' → SuppliesMoreTail es es' → SuppliesMoreTail ((id, e) :: es) ((id, e') :: es')
end

namespace CallSite.MoreTail

theorem refl (site : CallSite) : site.MoreTail site := ⟨rfl, id⟩

theorem map {f : CallSite → CallSite} (tail : ∀ site, (f site).tail = site.tail)
    (blind : ∀ site tail, f { site with tail } = { f site with tail }) {site site' : CallSite}
    (h : site.MoreTail site') : (f site).MoreTail (f site') where
  same := by rw [h.same, blind]
  tail := by rw [tail, tail]; exact h.tail

end CallSite.MoreTail

namespace DynamicSite.MoreTail

theorem refl (site : DynamicSite) : site.MoreTail site := ⟨rfl, id⟩

theorem map {f : DynamicSite → DynamicSite} (tail : ∀ site, (f site).tail = site.tail)
    (blind : ∀ site tail, f { site with tail } = { f site with tail }) {site site' : DynamicSite}
    (h : site.MoreTail site') : (f site).MoreTail (f site') where
  same := by rw [h.same, blind]
  tail := by rw [tail, tail]; exact h.tail

end DynamicSite.MoreTail

mutual
theorem Value.MoreTail.refl : (v : Value) → v.MoreTail v
  | .int i => .int i
  | .bool b => .bool b
  | .str s => .str s
  | .seq vs => .seq (ValuesMoreTail.refl vs)
  | .func f => .func (FuncItem.MoreTail.refl f)

theorem ValuesMoreTail.refl : (vs : List Value) → ValuesMoreTail vs vs
  | [] => .nil
  | v :: vs => .cons (Value.MoreTail.refl v) (ValuesMoreTail.refl vs)

theorem FuncItem.MoreTail.refl : (f : FuncItem) → f.MoreTail f
  | ⟨id, origin, name, type, annotations, span, code⟩ =>
    .item id origin name type annotations span (Code.MoreTail.refl code)

theorem Code.MoreTail.refl : (c : Code) → c.MoreTail c
  | .builtin b => .builtin b
  | .closure params captured body scope =>
    .closure params scope (CapturedMoreTail.refl captured) (Expr.MoreTail.refl body)

theorem CapturedMoreTail.refl : (vs : List (Variable × Value)) → CapturedMoreTail vs vs
  | [] => .nil
  | (x, v) :: vs => .cons x (Value.MoreTail.refl v) (CapturedMoreTail.refl vs)

theorem Expr.MoreTail.refl : (e : Expr) → e.MoreTail e
  | .value v => .value (Value.MoreTail.refl v)
  | .var ref => .var ref
  | .letIn id slot value body => .letIn id slot (Expr.MoreTail.refl value) (Expr.MoreTail.refl body)
  | .branch cond yes no span =>
    .branch span (Expr.MoreTail.refl cond) (Expr.MoreTail.refl yes) (Expr.MoreTail.refl no)
  | .arith op lhs rhs span => .arith op span (Expr.MoreTail.refl lhs) (Expr.MoreTail.refl rhs)
  | .compare op lhs rhs span => .compare op span (Expr.MoreTail.refl lhs) (Expr.MoreTail.refl rhs)
  | .seq items => .seq (ListMoreTail.refl items)
  | .focus span => .focus span
  | .treat e type span => .treat type span (Expr.MoreTail.refl e)
  | .builtin function args span => .builtin function span (ListMoreTail.refl args)
  | .error e => .error e
  | .closure c => .closure (Closure.MoreTail.refl c)
  | .literal site c => .literal site (Closure.MoreTail.refl c)
  | .partialApply site target args =>
    .partialApply site (Expr.MoreTail.refl target) (ListMoreTail.refl args)
  | .call site args => .call (.refl site) (ListMoreTail.refl args)
  | .dynamicCall site callee args =>
    .dynamicCall (.refl site) (Expr.MoreTail.refl callee) (ListMoreTail.refl args)

theorem ListMoreTail.refl : (es : List Expr) → ListMoreTail es es
  | [] => .nil
  | e :: es => .cons (Expr.MoreTail.refl e) (ListMoreTail.refl es)

theorem Closure.MoreTail.refl : (c : Closure) → c.MoreTail c
  | ⟨name, params, body, declared, annotations, scope, captures, origin, compiled, span⟩ =>
    .closure name params declared annotations scope origin compiled span
      (SuppliesMoreTail.refl captures) (Expr.MoreTail.refl body)

theorem SuppliesMoreTail.refl : (es : List (VarId × Expr)) → SuppliesMoreTail es es
  | [] => .nil
  | (id, e) :: es => .cons id (Expr.MoreTail.refl e) (SuppliesMoreTail.refl es)
end

theorem valuesMoreTail_iff {vs ws : List Value} :
    ValuesMoreTail vs ws ↔ List.Forall₂ Value.MoreTail vs ws := by
  constructor
  · intro h
    induction vs generalizing ws with
    | nil =>
      cases h
      exact .nil
    | cons v vs ih =>
      cases h with
      | cons hv hvs => exact .cons hv (ih hvs)
  · intro h
    induction h with
    | nil => exact .nil
    | cons hv _ ih => exact .cons hv ih

theorem capturedMoreTail_iff {vs ws : List (Variable × Value)} :
    CapturedMoreTail vs ws ↔ List.Forall₂ (fun p q => p.1 = q.1 ∧ p.2.MoreTail q.2) vs ws := by
  constructor
  · intro h
    induction vs generalizing ws with
    | nil =>
      cases h
      exact .nil
    | cons p vs ih =>
      cases h with
      | cons x hv hvs => exact .cons ⟨rfl, hv⟩ (ih hvs)
  · intro h
    induction h with
    | nil => exact .nil
    | @cons p q _ _ hpq _ ih =>
      obtain ⟨x, v⟩ := p
      obtain ⟨y, w⟩ := q
      obtain ⟨rfl, hv⟩ := hpq
      exact .cons x hv ih

theorem listMoreTail_iff {es es' : List Expr} :
    ListMoreTail es es' ↔ List.Forall₂ Expr.MoreTail es es' := by
  constructor
  · intro h
    induction es generalizing es' with
    | nil =>
      cases h
      exact .nil
    | cons e es ih =>
      cases h with
      | cons he hes => exact .cons he (ih hes)
  · intro h
    induction h with
    | nil => exact .nil
    | cons he _ ih => exact .cons he ih

theorem suppliesMoreTail_iff {es es' : List (VarId × Expr)} :
    SuppliesMoreTail es es' ↔ List.Forall₂ (fun p q => p.1 = q.1 ∧ p.2.MoreTail q.2) es es' := by
  constructor
  · intro h
    induction es generalizing es' with
    | nil =>
      cases h
      exact .nil
    | cons p es ih =>
      cases h with
      | cons id he hes => exact .cons ⟨rfl, he⟩ (ih hes)
  · intro h
    induction h with
    | nil => exact .nil
    | @cons p q _ _ hpq _ ih =>
      obtain ⟨id, e⟩ := p
      obtain ⟨id', e'⟩ := q
      obtain ⟨rfl, he⟩ := hpq
      exact .cons id he ih

namespace Expr.MoreTail

theorem markTails : {e e' : Expr} → e.MoreTail e' → e.markTails.MoreTail e'.markTails
  | _, _, .branch span hc hy hn => .branch span hc hy.markTails hn.markTails
  | _, _, .letIn id slot hv hb => .letIn id slot hv hb.markTails
  | _, _, .call hsite hargs => .call ⟨by rw [hsite.same], fun _ => rfl⟩ hargs
  | _, _, .dynamicCall hsite hf hargs => .dynamicCall ⟨by rw [hsite.same], fun _ => rfl⟩ hf hargs
  | _, _, h@(.value _) | _, _, h@(.var _) | _, _, h@(.arith _ _ _ _)
  | _, _, h@(.compare _ _ _ _) | _, _, h@(.seq _) | _, _, h@(.focus _) | _, _, h@(.treat _ _ _)
  | _, _, h@(.builtin _ _ _) | _, _, h@(.error _) | _, _, h@(.closure _) | _, _, h@(.literal _ _)
  | _, _, h@(.partialApply _ _ _) => h

theorem marked : {e e' : Expr} → e.MoreTail e' → e.MoreTail e'.markTails
  | _, _, .branch span hc hy hn => .branch span hc hy.marked hn.marked
  | _, _, .letIn id slot hv hb => .letIn id slot hv hb.marked
  | _, _, .call hsite hargs => .call ⟨by rw [hsite.same], fun _ => rfl⟩ hargs
  | _, _, .dynamicCall hsite hf hargs => .dynamicCall ⟨by rw [hsite.same], fun _ => rfl⟩ hf hargs
  | _, _, h@(.value _) | _, _, h@(.var _) | _, _, h@(.arith _ _ _ _)
  | _, _, h@(.compare _ _ _ _) | _, _, h@(.seq _) | _, _, h@(.focus _) | _, _, h@(.treat _ _ _)
  | _, _, h@(.builtin _ _ _) | _, _, h@(.error _) | _, _, h@(.closure _) | _, _, h@(.literal _ _)
  | _, _, h@(.partialApply _ _ _) => h

end Expr.MoreTail

end QueryFunctions
