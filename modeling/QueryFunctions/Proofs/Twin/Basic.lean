import Mathlib.Data.List.Forall2
import QueryFunctions.Proofs.Run.Kinship
import QueryFunctions.Expr.Item
import QueryFunctions.Proofs.Tail.Registry

/-! Values up to the identity of function items. Twins are made by the same code from twins, but with
identities drawn from another supply: those of the items, and in a partial application the origin and the
parameters of the function that it makes. All other code is the same. -/
namespace QueryFunctions

/-- The same variable but for its identity. -/
structure Variable.Twin (v w : Variable) : Prop where
  same : w = { v with id := w.id }

structure Scope.Twin (s t : Scope) : Prop where
  vars : List.Forall₂ Variable.Twin s.vars t.vars
  slots : t.slots = s.slots

mutual
/-- The two values differ in identities of function items only. -/
inductive Value.Twin : Value → Value → Prop
  | int (i : Int64) : Value.Twin (.int i) (.int i)
  | bool (b : Bool) : Value.Twin (.bool b) (.bool b)
  | str (s : String) : Value.Twin (.str s) (.str s)
  | seq {vs ws : List Value} : ValuesTwin vs ws → Value.Twin (.seq vs) (.seq ws)
  | func {f g : FuncItem} : FuncItem.Twin f g → Value.Twin (.func f) (.func g)

inductive ValuesTwin : List Value → List Value → Prop
  | nil : ValuesTwin [] []
  | cons {v w : Value} {vs ws : List Value} :
    Value.Twin v w → ValuesTwin vs ws → ValuesTwin (v :: vs) (w :: ws)

inductive FuncItem.Twin : FuncItem → FuncItem → Prop
  | item (id id' : ItemId) (origin origin' : Origin) (name : Option String) (type : FuncType)
    (annotations : Annotations) (span : Span) {c d : Code} : Code.Twin c d →
    FuncItem.Twin ⟨id, origin, name, type, annotations, span, c⟩
      ⟨id', origin', name, type, annotations, span, d⟩

inductive Code.Twin : Code → Code → Prop
  | builtin (b : Builtin) : Code.Twin (.builtin b) (.builtin b)
  | closure (params : List Variable) (body : Expr) (scope : Scope)
    {vs ws : List (Variable × Value)} : CapturedTwin vs ws →
    Code.Twin (.closure params vs body scope) (.closure params ws body scope)
  /-- The call that a partial application makes has parameters of its own. -/
  | partialCall (site : DynamicSite) {s t : Scope} {f g : FuncItem} {es es' : List Expr} :
    s.Twin t → FuncItem.Twin f g → OperandsTwin es es' →
    Code.Twin (.closure s.vars [] (.dynamicCall site (.value (.func f)) es) s)
      (.closure t.vars [] (.dynamicCall site (.value (.func g)) es') t)

inductive CapturedTwin : List (Variable × Value) → List (Variable × Value) → Prop
  | nil : CapturedTwin [] []
  | cons (x : Variable) {v w : Value} {vs ws : List (Variable × Value)} :
    Value.Twin v w → CapturedTwin vs ws → CapturedTwin ((x, v) :: vs) ((x, w) :: ws)

inductive OperandsTwin : List Expr → List Expr → Prop
  | nil : OperandsTwin [] []
  | param (ref : VarRef) (id : VarId) {es es' : List Expr} : OperandsTwin es es' →
    OperandsTwin (.var ref :: es) (.var { ref with id } :: es')
  | supplied {v w : Value} {es es' : List Expr} : Value.Twin v w → OperandsTwin es es' →
    OperandsTwin (.value v :: es) (.value w :: es')
end

theorem Variable.Twin.symm {v w : Variable} (h : v.Twin w) : w.Twin v := ⟨by rw [h.same]⟩

theorem Scope.Twin.symm {s t : Scope} (h : s.Twin t) : t.Twin s where
  vars := List.Forall₂.flip (h.vars.imp fun _ _ hv => hv.symm)
  slots := h.slots.symm

mutual
theorem Value.Twin.refl : (v : Value) → v.Twin v
  | .int i => .int i
  | .bool b => .bool b
  | .str s => .str s
  | .seq vs => .seq (ValuesTwin.refl vs)
  | .func f => .func (FuncItem.Twin.refl f)

theorem ValuesTwin.refl : (vs : List Value) → ValuesTwin vs vs
  | [] => .nil
  | v :: vs => .cons (Value.Twin.refl v) (ValuesTwin.refl vs)

theorem FuncItem.Twin.refl : (f : FuncItem) → f.Twin f
  | ⟨id, origin, name, type, annotations, span, code⟩ =>
    .item id id origin origin name type annotations span (Code.Twin.refl code)

theorem Code.Twin.refl : (c : Code) → c.Twin c
  | .builtin b => .builtin b
  | .closure params captured body scope => .closure params body scope (CapturedTwin.refl captured)

theorem CapturedTwin.refl : (vs : List (Variable × Value)) → CapturedTwin vs vs
  | [] => .nil
  | (x, v) :: vs => .cons x (Value.Twin.refl v) (CapturedTwin.refl vs)
end

mutual
theorem Value.Twin.symm : {v w : Value} → v.Twin w → w.Twin v
  | _, _, .int i => .int i
  | _, _, .bool b => .bool b
  | _, _, .str s => .str s
  | _, _, .seq h => .seq h.symm
  | _, _, .func h => .func h.symm

theorem ValuesTwin.symm : {vs ws : List Value} → ValuesTwin vs ws → ValuesTwin ws vs
  | _, _, .nil => .nil
  | _, _, .cons h h' => .cons h.symm h'.symm

theorem FuncItem.Twin.symm : {f g : FuncItem} → f.Twin g → g.Twin f
  | _, _, .item id id' origin origin' name type annotations span h =>
    .item id' id origin' origin name type annotations span h.symm

theorem Code.Twin.symm : {c d : Code} → c.Twin d → d.Twin c
  | _, _, .builtin b => .builtin b
  | _, _, .closure params body scope h => .closure params body scope h.symm
  | _, _, .partialCall site h h' h'' => .partialCall site h.symm h'.symm h''.symm

theorem CapturedTwin.symm : {vs ws : List (Variable × Value)} → CapturedTwin vs ws →
    CapturedTwin ws vs
  | _, _, .nil => .nil
  | _, _, .cons x h h' => .cons x h.symm h'.symm

theorem OperandsTwin.symm : {es es' : List Expr} → OperandsTwin es es' → OperandsTwin es' es
  | _, _, .nil => .nil
  | _, _, .param ref id h => .param { ref with id } ref.id h.symm
  | _, _, .supplied h h' => .supplied h.symm h'.symm
end

theorem valuesTwin_iff {vs ws : List Value} :
    ValuesTwin vs ws ↔ List.Forall₂ Value.Twin vs ws := by
  constructor
  · intro h
    induction vs generalizing ws with
    | nil =>
      cases h
      exact .nil
    | cons v vs ih =>
      cases h with
      | cons hv hvs => exact .cons hv (ih hvs)
  · intro h
    induction h with
    | nil => exact .nil
    | cons hv _ ih => exact .cons hv ih

theorem CapturedTwin.forall₂ : {vs ws : List (Variable × Value)} → CapturedTwin vs ws →
    List.Forall₂ (fun p q => p.1 = q.1 ∧ p.2.Twin q.2) vs ws
  | _, _, .nil => .nil
  | _, _, .cons _ h h' => .cons ⟨rfl, h⟩ h'.forall₂

theorem OperandsTwin.length_eq : {es es' : List Expr} → OperandsTwin es es' →
    es'.length = es.length
  | _, _, .nil => rfl
  | _, _, .param _ _ h | _, _, .supplied _ h => congrArg (· + 1) h.length_eq

namespace FuncItem.Twin

variable {f g : FuncItem}

theorem looksLike (h : f.Twin g) : f.LooksLike g := by
  cases h
  rfl

theorem code (h : f.Twin g) : f.code.Twin g.code := by
  cases h with
  | item _ _ _ _ _ _ _ _ h => exact h

end FuncItem.Twin

namespace Variable.Twin

variable {v w : Variable} (h : v.Twin w)

include h

theorem name_eq : w.name = v.name := by rw [h.same]

theorem declared_eq : w.declared = v.declared := by rw [h.same]

theorem slot_eq : w.slot = v.slot := by rw [h.same]

end Variable.Twin

mutual
theorem Value.Twin.looksLike : {v w : Value} → v.Twin w → v.LooksLike w
  | _, _, .int _ | _, _, .bool _ | _, _, .str _ => rfl
  | _, _, .seq h => congrArg Value.seq h.facades_eq
  | _, _, .func h => congrArg Value.func h.looksLike

theorem ValuesTwin.facades_eq : {vs ws : List Value} → ValuesTwin vs ws → facades vs = facades ws
  | _, _, .nil => rfl
  | _, _, .cons h h' => congrArg₂ List.cons h.looksLike h'.facades_eq
end

namespace ValuesTwin

variable {vs ws vs' ws' : List Value}

theorem length_eq (h : ValuesTwin vs ws) : ws.length = vs.length :=
  (valuesTwin_iff.1 h).length_eq.symm

theorem append (h : ValuesTwin vs ws) (h' : ValuesTwin vs' ws') :
    ValuesTwin (vs ++ vs') (ws ++ ws') := by
  rw [valuesTwin_iff] at *
  exact List.rel_append h h'

end ValuesTwin

namespace Value.Twin

variable {v w : Value}

theorem items (h : v.Twin w) : ValuesTwin v.items w.items := by
  cases h with
  | seq h => exact h
  | int i => exact .cons (.int i) .nil
  | bool b => exact .cons (.bool b) .nil
  | str s => exact .cons (.str s) .nil
  | func h => exact .cons (.func h) .nil

theorem kinship : Kinship Value.Twin FuncItem.Twin where
  refl := .refl
  looksLike h := h.looksLike
  split h := valuesTwin_iff.1 h.items
  seq h := .seq (valuesTwin_iff.2 h)
  func := ⟨fun h => by cases h; assumption, .func⟩

theorem ofItems {vs ws : List Value} (h : ValuesTwin vs ws) :
    (Value.ofItems vs).Twin (Value.ofItems ws) :=
  kinship.join (valuesTwin_iff.1 h)

theorem asFunc (h : v.Twin w) (span : Span) :
    Ends FuncItem.Twin (v.asFunc span) (w.asFunc span) := kinship.asFunc h span

end Value.Twin

/-- From whatever supply it is started, the second computation gives a result if the first does, and a
related one. -/
def DrawsFreely {α β : Type} (rel : α → β → Prop) (act : Supplied α) (act' : Supplied β) : Prop :=
  ∀ s s' a t, act s = .ok (a, t) → ∃ b t', act' s' = .ok (b, t') ∧ rel a b

namespace DrawsFreely

variable {α β γ δ : Type} {rel : α → β → Prop} {rel' : γ → δ → Prop}

theorem pure {a : α} {b : β} (h : rel a b) : DrawsFreely rel (pure a) (pure b) := by
  rintro s s' _ _ ⟨⟩
  exact ⟨b, s', rfl, h⟩

theorem bind {act : Supplied α} {act' : Supplied β} {next : α → Supplied γ} {next' : β → Supplied δ}
    (first : DrawsFreely rel act act')
    (second : ∀ a b, rel a b → DrawsFreely rel' (next a) (next' b)) :
    DrawsFreely rel' (act >>= next) (act' >>= next') := by
  intro s s' c u run
  cases h : act s with
  | error f =>
    simp only [Bind.bind, StateT.bind, Except.bind, h] at run
    cases run
  | ok p =>
    simp only [Bind.bind, StateT.bind, Except.bind, h] at run
    obtain ⟨b, t', run', hab⟩ := first s s' p.1 p.2 h
    obtain ⟨d, u', run'', hcd⟩ := second p.1 b hab p.2 t' c u run
    refine ⟨d, u', ?_, hcd⟩
    simp only [Bind.bind, StateT.bind, Except.bind, run', run'']

theorem ofExcept (result : Except Fault α) :
    DrawsFreely Eq (liftM result) (liftM result) := by
  intro s s' a t run
  cases result with
  | error f => cases run
  | ok x =>
    cases run
    exact ⟨_, s', rfl, rfl⟩

theorem liftSupply {draw : StateM Supply α} {draw' : StateM Supply β}
    (h : ∀ s s', rel (draw.run s).1 (draw'.run s').1) :
    DrawsFreely rel (liftSupply draw) (QueryFunctions.liftSupply draw') := by
  rintro s s' a t run
  have same : draw.run s = (a, t) := Except.ok.inj run
  have ends := h s s'
  rw [same] at ends
  exact ⟨(draw'.run s').1, (draw'.run s').2, rfl, ends⟩

theorem any (draw : StateM Supply α) (draw' : StateM Supply β) :
    DrawsFreely (fun _ _ => True) (QueryFunctions.liftSupply draw) (QueryFunctions.liftSupply draw') :=
  liftSupply fun _ _ => trivial

end DrawsFreely

theorem Closure.toItem_twin (c : Closure) {vs ws : List (Variable × Value)} (h : CapturedTwin vs ws) :
    DrawsFreely FuncItem.Twin (liftSupply (c.toItem vs)) (liftSupply (c.toItem ws)) :=
  .liftSupply fun _ _ => .item _ _ _ _ _ _ _ _ (.closure _ _ _ h)

theorem Scope.Twin.add {s t : Scope} (h : s.Twin t) (id id' : VarId) (name : String)
    (declared : Option SeqType) (pinned : Bool) :
    (s.add id name declared pinned).Twin (t.add id' name declared pinned) where
  vars := by
    have slot : t.freeSlot = s.freeSlot := by rw [freeSlot, freeSlot, h.slots]
    exact List.rel_append h.vars (.cons ⟨by rw [slot]⟩ .nil)
  slots := by simp only [Scope.add, freeSlot, h.slots]

theorem FuncItem.Twin.paramName?_eq {f g : FuncItem} (h : f.Twin g) (position : Nat) :
    g.paramName? position = f.paramName? position := by
  cases h with
  | item _ _ _ _ _ _ _ _ h =>
    cases h with
    | builtin _ | closure _ _ _ _ => rfl
    | @partialCall _ s t _ _ _ _ scopes =>
      have found := forall₂_getElem? scopes.vars position
      simp only [paramName?, Code.paramName?]
      generalize s.vars[position]? = v at found ⊢
      generalize t.vars[position]? = w at found ⊢
      cases found with
      | none => rfl
      | some h => exact congrArg some h.name_eq

namespace PartialApplication

theorem openVariables_twin {f g : FuncItem} (h : f.Twin g) {s t : Scope} (scopes : s.Twin t)
    (first : Nat) (holes : List Nat) (supply supply' : Supply) :
    ((openVariables f s first holes).run supply).1.Twin
      ((openVariables g t first holes).run supply').1 := by
  induction holes generalizing s t first supply supply' with
  | nil => exact scopes
  | cons hole holes ih =>
    simp only [openVariables, h.paramName?_eq]
    exact ih (scopes.add _ _ _ _ _) (first + 1) _ _

theorem params_twin {s t : Scope} (scopes : s.Twin t) (span : Span) :
    List.Forall₂ (fun p q => ∃ ref id, p = Expr.var ref ∧ q = Expr.var { ref with id })
      (s.vars.map fun v => Expr.var ⟨v.id, v.slot, v.type, span⟩)
      (t.vars.map fun v => Expr.var ⟨v.id, v.slot, v.type, span⟩) := by
  rw [List.forall₂_map_left_iff, List.forall₂_map_right_iff]
  exact scopes.vars.imp fun v w h => ⟨_, w.id, rfl, by rw [h.same]⟩

theorem arrange_twin (holes : List Nat) {params params' : List Expr}
    (hparams : List.Forall₂ (fun p q => ∃ ref id, p = Expr.var ref ∧ q = Expr.var { ref with id })
      params params') (pos count : Nat) {vs ws : List Value} (h : ValuesTwin vs ws) :
    OperandsTwin (arrange holes params pos count vs) (arrange holes params' pos count ws) := by
  induction count generalizing pos vs ws with
  | zero => exact .nil
  | succ count ih =>
    have param : Option.Rel (fun p q => ∃ ref id, p = Expr.var ref ∧ q = Expr.var { ref with id })
        ((holes.idxOf? pos).bind (params[·]?)) ((holes.idxOf? pos).bind (params'[·]?)) := by
      cases holes.idxOf? pos with
      | none => exact .none
      | some i => exact forall₂_getElem? hparams i
    unfold arrange
    generalize (holes.idxOf? pos).bind (params[·]?) = p at param ⊢
    generalize (holes.idxOf? pos).bind (params'[·]?) = p' at param ⊢
    cases param with
    | some h' =>
      obtain ⟨ref, id, rfl, rfl⟩ := h'
      exact .param ref id (ih _ h)
    | none =>
      cases h with
      | nil => exact .supplied (.refl _) (ih _ .nil)
      | cons hv hvs => exact .supplied hv (ih _ hvs)

theorem make_twin {f g : FuncItem} (h : f.Twin g) {vs ws : List Value} (supplied : ValuesTwin vs ws)
    (holes : List Nat) (span : Span) :
    DrawsFreely FuncItem.Twin (make f vs holes span) (make g ws holes span) := by
  have same := h.looksLike
  unfold make
  rw [same.type_eq, same.isUpdating_eq, same.annotations_eq, supplied.length_eq]
  refine (DrawsFreely.liftSupply (openVariables_twin h ⟨.nil, rfl⟩ 0 holes)).bind fun s t scopes => ?_
  refine (DrawsFreely.any _ _).bind fun _ _ _ => ?_
  refine (DrawsFreely.any _ _).bind fun _ _ _ => ?_
  refine (DrawsFreely.ofExcept _).bind fun type _ same => ?_
  cases same
  have args := arrange_twin holes (params_twin scopes span) 0 (vs.length + holes.length) supplied
  exact .pure (.item _ _ _ _ _ _ _ _ (.partialCall _ scopes h args))

end PartialApplication

end QueryFunctions
