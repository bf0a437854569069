import Mathlib.Data.List.Forall2
import QueryFunctions.Expr.Item
import QueryFunctions.Expr.Traversal
import QueryFunctions.Proofs.Run.Kinship
import QueryFunctions.Proofs.Tail.Registry

/-! Code up to the identities of variables. Each frame has a pairing of its own that tells which variable
stands for which. All else is the same, slots and types of variables, names, origins and identities of
items included. Neither a value nor what is known of code before it runs tells them apart. -/
namespace QueryFunctions

/-- Which variable of one frame stands for which of another. -/
abbrev Pairing := VarId → VarId → Prop

def OneToOne (F : Pairing) : Prop := ∀ {a b c d}, F a b → F c d → (a = c ↔ b = d)

theorem OneToOne.eq : OneToOne Eq := by
  rintro a _ c _ rfl rfl
  exact Iff.rfl

theorem OneToOne.flip {F : Pairing} (h : OneToOne F) : OneToOne (flip F) :=
  fun first second => (h first second).symm

structure Variable.Renames (F : Pairing) (v w : Variable) : Prop where
  paired : F v.id w.id
  same : w = { v with id := w.id }

structure Scope.Renames (F : Pairing) (s t : Scope) : Prop where
  vars : List.Forall₂ (Variable.Renames F) s.vars t.vars
  slots : t.slots = s.slots

mutual
/-- The two values differ in identities of variables only. -/
inductive Value.Renames : Value → Value → Prop
  | int (i : Int64) : Value.Renames (.int i) (.int i)
  | bool (b : Bool) : Value.Renames (.bool b) (.bool b)
  | str (s : String) : Value.Renames (.str s) (.str s)
  | seq {vs ws : List Value} : ValuesRename vs ws → Value.Renames (.seq vs) (.seq ws)
  | func {f g : FuncItem} : FuncItem.Renames f g → Value.Renames (.func f) (.func g)

inductive ValuesRename : List Value → List Value → Prop
  | nil : ValuesRename [] []
  | cons {v w : Value} {vs ws : List Value} :
    Value.Renames v w → ValuesRename vs ws → ValuesRename (v :: vs) (w :: ws)

inductive FuncItem.Renames : FuncItem → FuncItem → Prop
  | item (id : ItemId) (origin : Origin) (name : Option String) (type : FuncType)
    (annotations : Annotations) (span : Span) {c d : Code} : Code.Renames c d →
    FuncItem.Renames ⟨id, origin, name, type, annotations, span, c⟩
      ⟨id, origin, name, type, annotations, span, d⟩

inductive Code.Renames : Code → Code → Prop
  | builtin (b : Builtin) : Code.Renames (.builtin b) (.builtin b)
  | closure {F : Pairing} {ps qs : List Variable} {vs ws : List (Variable × Value)} {e e' : Expr}
    {s t : Scope} : OneToOne F → s.Renames F t → List.Forall₂ (Variable.Renames F) ps qs →
    CapturedRename F vs ws → Expr.Renames F e e' → Code.Renames (.closure ps vs e s) (.closure qs ws e' t)

inductive CapturedRename : Pairing → List (Variable × Value) → List (Variable × Value) → Prop
  | nil {F : Pairing} : CapturedRename F [] []
  | cons {F : Pairing} {x y : Variable} {v w : Value} {vs ws : List (Variable × Value)} : x.Renames F y →
    Value.Renames v w → CapturedRename F vs ws → CapturedRename F ((x, v) :: vs) ((y, w) :: ws)

/-- The second expression is the first with variables renamed: those of its own frame along the pairing,
and those of closures and function items along pairings of theirs. -/
inductive Expr.Renames : Pairing → Expr → Expr → Prop
  | value {F : Pairing} {v w : Value} : Value.Renames v w → Expr.Renames F (.value v) (.value w)
  | var {F : Pairing} {id id' : VarId} (slot : Nat) (type : SeqType) (span : Span) : F id id' →
    Expr.Renames F (.var ⟨id, slot, type, span⟩) (.var ⟨id', slot, type, span⟩)
  | letIn {F : Pairing} {id id' : VarId} (slot : Nat) {v v' b b' : Expr} : F id id' →
    Expr.Renames F v v' → Expr.Renames F b b' →
    Expr.Renames F (.letIn id slot v b) (.letIn id' slot v' b')
  | branch {F : Pairing} {c c' y y' n n' : Expr} (span : Span) : Expr.Renames F c c' →
    Expr.Renames F y y' → Expr.Renames F n n' →
    Expr.Renames F (.branch c y n span) (.branch c' y' n' span)
  | arith {F : Pairing} (op : ArithOp) {l l' r r' : Expr} (span : Span) : Expr.Renames F l l' →
    Expr.Renames F r r' → Expr.Renames F (.arith op l r span) (.arith op l' r' span)
  | compare {F : Pairing} (op : CompareOp) {l l' r r' : Expr} (span : Span) : Expr.Renames F l l' →
    Expr.Renames F r r' → Expr.Renames F (.compare op l r span) (.compare op l' r' span)
  | seq {F : Pairing} {es es' : List Expr} : ListRename F es es' → Expr.Renames F (.seq es) (.seq es')
  | focus {F : Pairing} (span : Span) : Expr.Renames F (.focus span) (.focus span)
  | treat {F : Pairing} {e e' : Expr} (type : SeqType) (span : Span) : Expr.Renames F e e' →
    Expr.Renames F (.treat e type span) (.treat e' type span)
  | builtin {F : Pairing} (function : Builtin) {es es' : List Expr} (span : Span) : ListRename F es es' →
    Expr.Renames F (.builtin function es span) (.builtin function es' span)
  | error {F : Pairing} (e : QueryError) : Expr.Renames F (.error e) (.error e)
  | closure {F : Pairing} {c c' : Closure} : Closure.Renames F c c' →
    Expr.Renames F (.closure c) (.closure c')
  | literal {F : Pairing} (site : LiteralSite) {c c' : Closure} : Closure.Renames F c c' →
    Expr.Renames F (.literal site c) (.literal site c')
  | partialApply {F : Pairing} (site : PartialSite) {e e' : Expr} {es es' : List Expr} :
    Expr.Renames F e e' → ListRename F es es' →
    Expr.Renames F (.partialApply site e es) (.partialApply site e' es')
  | call {F : Pairing} (site : CallSite) {es es' : List Expr} : ListRename F es es' →
    Expr.Renames F (.call site es) (.call site es')
  | dynamicCall {F : Pairing} (site : DynamicSite) {e e' : Expr} {es es' : List Expr} :
    Expr.Renames F e e' → ListRename F es es' →
    Expr.Renames F (.dynamicCall site e es) (.dynamicCall site e' es')

inductive ListRename : Pairing → List Expr → List Expr → Prop
  | nil {F : Pairing} : ListRename F [] []
  | cons {F : Pairing} {e e' : Expr} {es es' : List Expr} :
    Expr.Renames F e e' → ListRename F es es' → ListRename F (e :: es) (e' :: es')

inductive Closure.Renames : Pairing → Closure → Closure → Prop
  | closure {F G : Pairing} (name : Option String) (declared : Option SeqType)
    (annotations : Annotations) (origin : Origin) (compiled : Bool) (span : Span)
    {ps qs : List VarId} {body body' : Expr} {s t : Scope} {es es' : List (VarId × Expr)} :
    OneToOne G → s.Renames G t → List.Forall₂ G ps qs → Expr.Renames G body body' →
    SuppliesRename F G es es' →
    Closure.Renames F ⟨name, ps, body, declared, annotations, s, es, origin, compiled, span⟩
      ⟨name, qs, body', declared, annotations, t, es', origin, compiled, span⟩

/-- What supplies captured variables belongs to the frame around, the variables to the closure. -/
inductive SuppliesRename : Pairing → Pairing → List (VarId × Expr) → List (VarId × Expr) → Prop
  | nil {F G : Pairing} : SuppliesRename F G [] []
  | cons {F G : Pairing} {id id' : VarId} {e e' : Expr} {es es' : List (VarId × Expr)} : G id id' →
    Expr.Renames F e e' → SuppliesRename F G es es' →
    SuppliesRename F G ((id, e) :: es) ((id', e') :: es')
end

namespace Variable.Renames

variable {F : Pairing} {v w : Variable}

theorem refl (v : Variable) : v.Renames Eq v := ⟨rfl, rfl⟩

theorem symm (h : v.Renames F w) : w.Renames (flip F) v := ⟨h.paired, by rw [h.same]⟩

theorem name_eq (h : v.Renames F w) : w.name = v.name := by rw [h.same]

theorem declared_eq (h : v.Renames F w) : w.declared = v.declared := by rw [h.same]

theorem slot_eq (h : v.Renames F w) : w.slot = v.slot := by rw [h.same]

theorem type_eq (h : v.Renames F w) : w.type = v.type := by rw [h.same]

theorem refl_all (vars : List Variable) : List.Forall₂ (Variable.Renames Eq) vars vars :=
  List.forall₂_same.2 fun v _ => refl v

theorem symm_all {vs ws : List Variable} (h : List.Forall₂ (Variable.Renames F) vs ws) :
    List.Forall₂ (Variable.Renames (flip F)) ws vs :=
  (h.imp fun _ _ hv => hv.symm).flip

end Variable.Renames

namespace Scope.Renames

variable {F : Pairing} {s t : Scope}

theorem refl (s : Scope) : s.Renames Eq s := ⟨Variable.Renames.refl_all s.vars, rfl⟩

theorem symm (h : s.Renames F t) : t.Renames (flip F) s :=
  ⟨Variable.Renames.symm_all h.vars, h.slots.symm⟩

theorem frameSize_eq (h : s.Renames F t) : t.frameSize = s.frameSize := congrArg List.length h.slots

theorem find? (h : s.Renames F t) (distinct : OneToOne F) {a b : VarId} (paired : F a b) :
    Option.Rel (Variable.Renames F) (s.find? a) (t.find? b) := by
  unfold Scope.find?
  have vars := h.vars
  generalize s.vars = vs at vars
  generalize t.vars = ws at vars
  induction vars with
  | nil => exact .none
  | @cons v w vs ws hv _ ih =>
    have same : (v.id == a) = (w.id == b) := by
      rw [Bool.eq_iff_iff, beq_iff_eq, beq_iff_eq]
      exact distinct hv.paired paired
    rw [List.find?_cons, List.find?_cons, ← same]
    cases v.id == a with
    | true => exact .some hv
    | false => exact ih

end Scope.Renames

mutual
theorem Value.Renames.refl : (v : Value) → v.Renames v
  | .int i => .int i
  | .bool b => .bool b
  | .str s => .str s
  | .seq vs => .seq (ValuesRename.refl vs)
  | .func f => .func (FuncItem.Renames.refl f)

theorem ValuesRename.refl : (vs : List Value) → ValuesRename vs vs
  | [] => .nil
  | v :: vs => .cons (Value.Renames.refl v) (ValuesRename.refl vs)

theorem FuncItem.Renames.refl : (f : FuncItem) → f.Renames f
  | ⟨id, origin, name, type, annotations, span, code⟩ =>
    .item id origin name type annotations span (Code.Renames.refl code)

theorem Code.Renames.refl : (c : Code) → c.Renames c
  | .builtin b => .builtin b
  | .closure params captured body scope =>
    .closure OneToOne.eq (.refl scope) (Variable.Renames.refl_all params)
    (CapturedRename.refl captured) (Expr.Renames.refl body)

theorem CapturedRename.refl : (vs : List (Variable × Value)) → CapturedRename Eq vs vs
  | [] => .nil
  | (x, v) :: vs => .cons (.refl x) (Value.Renames.refl v) (CapturedRename.refl vs)

theorem Expr.Renames.refl : (e : Expr) → e.Renames Eq e
  | .value v => .value (Value.Renames.refl v)
  | .var ⟨_, slot, type, span⟩ => .var slot type span rfl
  | .letIn _ slot value body => .letIn slot rfl (Expr.Renames.refl value) (Expr.Renames.refl body)
  | .branch cond yes no span =>
    .branch span (Expr.Renames.refl cond) (Expr.Renames.refl yes) (Expr.Renames.refl no)
  | .arith op lhs rhs span => .arith op span (Expr.Renames.refl lhs) (Expr.Renames.refl rhs)
  | .compare op lhs rhs span => .compare op span (Expr.Renames.refl lhs) (Expr.Renames.refl rhs)
  | .seq items => .seq (ListRename.refl items)
  | .focus span => .focus span
  | .treat e type span => .treat type span (Expr.Renames.refl e)
  | .builtin function args span => .builtin function span (ListRename.refl args)
  | .error e => .error e
  | .closure c => .closure (Closure.Renames.refl c)
  | .literal site c => .literal site (Closure.Renames.refl c)
  | .partialApply site target args =>
    .partialApply site (Expr.Renames.refl target) (ListRename.refl args)
  | .call site args => .call site (ListRename.refl args)
  | .dynamicCall site callee args =>
    .dynamicCall site (Expr.Renames.refl callee) (ListRename.refl args)

theorem ListRename.refl : (es : List Expr) → ListRename Eq es es
  | [] => .nil
  | e :: es => .cons (Expr.Renames.refl e) (ListRename.refl es)

theorem Closure.Renames.refl : (c : Closure) → c.Renames Eq c
  | ⟨name, _, body, declared, annotations, scope, captures, origin, compiled, span⟩ =>
    .closure name declared annotations origin compiled span OneToOne.eq (.refl scope)
      (List.forall₂_same.2 fun _ _ => rfl) (Expr.Renames.refl body) (SuppliesRename.refl captures)

theorem SuppliesRename.refl : (es : List (VarId × Expr)) → SuppliesRename Eq Eq es es
  | [] => .nil
  | (_, e) :: es => .cons rfl (Expr.Renames.refl e) (SuppliesRename.refl es)
end

mutual
theorem Value.Renames.symm : {v w : Value} → v.Renames w → w.Renames v
  | _, _, .int i => .int i
  | _, _, .bool b => .bool b
  | _, _, .str s => .str s
  | _, _, .seq h => .seq h.symm
  | _, _, .func h => .func h.symm

theorem ValuesRename.symm : {vs ws : List Value} → ValuesRename vs ws → ValuesRename ws vs
  | _, _, .nil => .nil
  | _, _, .cons h h' => .cons h.symm h'.symm

theorem FuncItem.Renames.symm : {f g : FuncItem} → f.Renames g → g.Renames f
  | _, _, .item id origin name type annotations span h =>
    .item id origin name type annotations span h.symm

theorem Code.Renames.symm : {c d : Code} → c.Renames d → d.Renames c
  | _, _, .builtin b => .builtin b
  | _, _, .closure distinct scope params captured body =>
    .closure distinct.flip scope.symm (Variable.Renames.symm_all params) captured.symm body.symm

theorem CapturedRename.symm : {F : Pairing} → {vs ws : List (Variable × Value)} →
    CapturedRename F vs ws → CapturedRename (flip F) ws vs
  | _, _, _, .nil => .nil
  | _, _, _, .cons hx h h' => .cons hx.symm h.symm h'.symm

theorem Expr.Renames.symm : {F : Pairing} → {e e' : Expr} → e.Renames F e' → e'.Renames (flip F) e
  | _, _, _, .value h => .value h.symm
  | _, _, _, .var slot type span h => .var slot type span h
  | _, _, _, .letIn slot paired h h' => .letIn slot paired h.symm h'.symm
  | _, _, _, .branch span h h' h'' => .branch span h.symm h'.symm h''.symm
  | _, _, _, .arith op span h h' => .arith op span h.symm h'.symm
  | _, _, _, .compare op span h h' => .compare op span h.symm h'.symm
  | _, _, _, .seq h => .seq h.symm
  | _, _, _, .focus span => .focus span
  | _, _, _, .treat type span h => .treat type span h.symm
  | _, _, _, .builtin function span h => .builtin function span h.symm
  | _, _, _, .error e => .error e
  | _, _, _, .closure h => .closure h.symm
  | _, _, _, .literal site h => .literal site h.symm
  | _, _, _, .partialApply site h h' => .partialApply site h.symm h'.symm
  | _, _, _, .call site h => .call site h.symm
  | _, _, _, .dynamicCall site h h' => .dynamicCall site h.symm h'.symm

theorem ListRename.symm : {F : Pairing} → {es es' : List Expr} → ListRename F es es' →
    ListRename (flip F) es' es
  | _, _, _, .nil => .nil
  | _, _, _, .cons h h' => .cons h.symm h'.symm

theorem Closure.Renames.symm : {F : Pairing} → {c c' : Closure} → c.Renames F c' →
    c'.Renames (flip F) c
  | _, _, _, .closure name declared annotations origin compiled span distinct scope params body supplies =>
    .closure name declared annotations origin compiled span distinct.flip scope.symm params.flip body.symm
      supplies.symm

theorem SuppliesRename.symm : {F G : Pairing} → {es es' : List (VarId × Expr)} →
    SuppliesRename F G es es' → SuppliesRename (flip F) (flip G) es' es
  | _, _, _, _, .nil => .nil
  | _, _, _, _, .cons paired h h' => .cons paired h.symm h'.symm
end

theorem valuesRename_iff {vs ws : List Value} :
    ValuesRename vs ws ↔ List.Forall₂ Value.Renames vs ws := by
  constructor
  · intro h
    induction vs generalizing ws with
    | nil =>
      cases h
      exact .nil
    | cons v vs ih =>
      cases h with
      | cons hv hvs => exact .cons hv (ih hvs)
  · intro h
    induction h with
    | nil => exact .nil
    | cons hv _ ih => exact .cons hv ih

theorem CapturedRename.forall₂ {F : Pairing} : {vs ws : List (Variable × Value)} →
    CapturedRename F vs ws → List.Forall₂ (fun p q => p.1.Renames F q.1 ∧ p.2.Renames q.2) vs ws
  | _, _, .nil => .nil
  | _, _, .cons hx h h' => .cons ⟨hx, h⟩ h'.forall₂

theorem ListRename.length_eq {F : Pairing} : {es es' : List Expr} → ListRename F es es' →
    es'.length = es.length
  | _, _, .nil => rfl
  | _, _, .cons _ h => congrArg (· + 1) h.length_eq

namespace FuncItem.Renames

variable {f g : FuncItem}

theorem code (h : f.Renames g) : f.code.Renames g.code := by
  cases h with
  | item _ _ _ _ _ _ h => exact h

theorem looksLike (h : f.Renames g) : f.LooksLike g := by
  cases h
  rfl

theorem paramName?_eq (h : f.Renames g) (position : Nat) :
    g.paramName? position = f.paramName? position := by
  cases h with
  | item _ _ _ _ _ _ h =>
    cases h with
    | builtin => rfl
    | @closure F ps qs _ _ _ _ _ _ _ _ params =>
      have found := forall₂_getElem? params position
      simp only [paramName?, Code.paramName?]
      generalize ps[position]? = v at found ⊢
      generalize qs[position]? = w at found ⊢
      cases found with
      | none => rfl
      | some h => exact congrArg some h.name_eq

end FuncItem.Renames

mutual
theorem Value.Renames.looksLike : {v w : Value} → v.Renames w → v.LooksLike w
  | _, _, .int _ | _, _, .bool _ | _, _, .str _ => rfl
  | _, _, .seq h => congrArg Value.seq h.facades_eq
  | _, _, .func h => congrArg Value.func h.looksLike

theorem ValuesRename.facades_eq : {vs ws : List Value} → ValuesRename vs ws → facades vs = facades ws
  | _, _, .nil => rfl
  | _, _, .cons h h' => congrArg₂ List.cons h.looksLike h'.facades_eq
end

namespace ValuesRename

variable {vs ws vs' ws' : List Value}

theorem length_eq (h : ValuesRename vs ws) : ws.length = vs.length :=
  (valuesRename_iff.1 h).length_eq.symm

theorem append (h : ValuesRename vs ws) (h' : ValuesRename vs' ws') :
    ValuesRename (vs ++ vs') (ws ++ ws') := by
  rw [valuesRename_iff] at *
  exact List.rel_append h h'

end ValuesRename

namespace Value.Renames

variable {v w : Value}

theorem items (h : v.Renames w) : ValuesRename v.items w.items := by
  cases h with
  | seq h => exact h
  | int i => exact .cons (.int i) .nil
  | bool b => exact .cons (.bool b) .nil
  | str s => exact .cons (.str s) .nil
  | func h => exact .cons (.func h) .nil

theorem kinship : Kinship Value.Renames FuncItem.Renames where
  refl := .refl
  looksLike h := h.looksLike
  split h := valuesRename_iff.1 h.items
  seq h := .seq (valuesRename_iff.2 h)
  func := ⟨fun h => by cases h; assumption, .func⟩

theorem ofItems {vs ws : List Value} (h : ValuesRename vs ws) :
    (Value.ofItems vs).Renames (Value.ofItems ws) :=
  kinship.join (valuesRename_iff.1 h)

theorem asFunc (h : v.Renames w) (span : Span) :
    Ends FuncItem.Renames (v.asFunc span) (w.asFunc span) := kinship.asFunc h span

end Value.Renames

theorem Closure.Renames.typeWith_eq {F : Pairing} {c c' : Closure} (h : c.Renames F c')
    (type : SeqType) : c'.typeWith type = c.typeWith type := by
  cases h with
  | @closure _ G _ _ _ _ _ _ _ _ _ _ s t _ _ distinct scope params =>
    refine congrArg (fun types => (⟨types, _, _⟩ : FuncType)) ?_
    dsimp only
    induction params with
    | nil => rfl
    | @cons p q _ _ paired _ ih =>
      have found := scope.find? distinct paired
      rw [List.map_cons, List.map_cons, ih]
      refine congrArg (· :: _) ?_
      generalize s.find? p = v at found ⊢
      generalize t.find? q = w at found ⊢
      cases found with
      | none => rfl
      | some h => simp only [Option.bind_some, h.declared_eq]

mutual
theorem Expr.Renames.inferredType_eq : {F : Pairing} → {e e' : Expr} → e.Renames F e' →
    e'.inferredType = e.inferredType
  | _, _, _, .value h => by rw [Expr.inferredType, Expr.inferredType, h.looksLike.seqType_eq]
  | _, _, _, .letIn _ _ _ h => by rw [Expr.inferredType, Expr.inferredType, h.inferredType_eq]
  | _, _, _, .branch _ _ h h' => by
    rw [Expr.inferredType, Expr.inferredType, h.inferredType_eq, h'.inferredType_eq]
  | _, _, _, .closure h => by
    rw [Expr.inferredType, Expr.inferredType, h.bodyType_eq, h.typeWith_eq]
  | _, _, _, .literal _ h => by
    rw [Expr.inferredType, Expr.inferredType, h.bodyType_eq, h.typeWith_eq]
  | _, _, _, .dynamicCall _ h _ => by rw [Expr.inferredType, Expr.inferredType, h.inferredType_eq]
  | _, _, _, .seq .nil => rfl
  | _, _, _, .seq (.cons _ _) => rfl
  | _, _, _, .var _ _ _ _ => rfl
  | _, _, _, .arith _ _ _ _ => rfl
  | _, _, _, .compare _ _ _ _ => rfl
  | _, _, _, .focus _ => rfl
  | _, _, _, .treat _ _ _ => rfl
  | _, _, _, .builtin _ _ _ => rfl
  | _, _, _, .error _ => rfl
  | _, _, _, .partialApply _ _ _ => rfl
  | _, _, _, .call _ _ => rfl

theorem Closure.Renames.bodyType_eq : {F : Pairing} → {c c' : Closure} → c.Renames F c' →
    c'.bodyType = c.bodyType
  | _, _, _, .closure _ _ _ _ _ _ _ _ _ h _ => h.inferredType_eq
end

theorem Closure.Renames.funcType_eq {F : Pairing} {c c' : Closure} (h : c.Renames F c') :
    c'.funcType = c.funcType := by
  rw [funcType, funcType, h.bodyType_eq, h.typeWith_eq]

mutual
theorem Expr.Renames.size_eq : {F : Pairing} → {e e' : Expr} → e.Renames F e' → e'.size = e.size
  | _, _, _, .letIn _ _ h h' => by simp only [Expr.size, h.size_eq, h'.size_eq]
  | _, _, _, .branch _ h h' h'' => by simp only [Expr.size, h.size_eq, h'.size_eq, h''.size_eq]
  | _, _, _, .arith _ _ h h' => by simp only [Expr.size, h.size_eq, h'.size_eq]
  | _, _, _, .compare _ _ h h' => by simp only [Expr.size, h.size_eq, h'.size_eq]
  | _, _, _, .seq h => by simp only [Expr.size, h.size_eq]
  | _, _, _, .treat _ _ h => by simp only [Expr.size, h.size_eq]
  | _, _, _, .builtin _ _ h => by simp only [Expr.size, h.size_eq]
  | _, _, _, .closure h => by simp only [Expr.size, h.size_eq]
  | _, _, _, .literal _ h => by simp only [Expr.size, h.size_eq]
  | _, _, _, .partialApply _ h h' => by simp only [Expr.size, h.size_eq, h'.size_eq]
  | _, _, _, .call _ h => by simp only [Expr.size, h.size_eq]
  | _, _, _, .dynamicCall _ h h' => by simp only [Expr.size, h.size_eq, h'.size_eq]
  | _, _, _, .value _ => rfl
  | _, _, _, .var _ _ _ _ => rfl
  | _, _, _, .focus _ => rfl
  | _, _, _, .error _ => rfl

theorem ListRename.size_eq : {F : Pairing} → {es es' : List Expr} → ListRename F es es' →
    listSize es' = listSize es
  | _, _, _, .nil => rfl
  | _, _, _, .cons h h' => by rw [listSize, listSize, h.size_eq, h'.size_eq]

theorem Closure.Renames.size_eq : {F : Pairing} → {c c' : Closure} → c.Renames F c' → c'.size = c.size
  | _, _, _, .closure _ _ _ _ _ _ _ _ _ h h' => by
    simp only [Closure.size, h.size_eq, h'.size_eq]

theorem SuppliesRename.size_eq : {F G : Pairing} → {es es' : List (VarId × Expr)} →
    SuppliesRename F G es es' → supplySize es' = supplySize es
  | _, _, _, _, .nil => rfl
  | _, _, _, _, .cons _ h h' => by simp only [supplySize, h.size_eq, h'.size_eq]
end

end QueryFunctions
