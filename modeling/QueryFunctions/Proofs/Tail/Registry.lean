import QueryFunctions.Expr.Copy
import QueryFunctions.Expr.Item
import QueryFunctions.Proofs.Tail.Static
import QueryFunctions.Registry.Basic

/-! Copies, function items, partial applications, options and registries with more tail calls. Copies and
items draw the same identities. -/
namespace QueryFunctions

namespace Closure.MoreTail

variable {c c' : Closure} {vs ws : List (Variable × Value)}

theorem toItem (h : c.MoreTail c') (captured : CapturedMoreTail vs ws) :
    DrawsAlike FuncItem.MoreTail (liftSupply (c.toItem vs)) (liftSupply (c'.toItem ws)) := by
  have type := h.funcType_eq
  have params := h.paramVariables_eq
  rintro s _ _ ⟨⟩
  refine ⟨_, rfl, ?_⟩
  simp only [type, params]
  cases h with
  | closure _ _ _ _ _ _ _ _ _ hbody => exact .item _ _ _ _ _ _ (.closure _ _ captured hbody)

end Closure.MoreTail

namespace PartialApplication

theorem openVariables_eq {f g : FuncItem} (h : f.MoreTail g) (scope : Scope) (first : Nat)
    (holes : List Nat) : openVariables g scope first holes = openVariables f scope first holes := by
  induction holes generalizing scope first with
  | nil => rfl
  | cons hole holes ih => simp only [openVariables, h.paramName?_eq, ih]

theorem arrange_moreTail (holes : List Nat) (params : List Expr) (pos count : Nat)
    {vs ws : List Value} (h : ValuesMoreTail vs ws) :
    ListMoreTail (arrange holes params pos count vs) (arrange holes params pos count ws) := by
  induction count generalizing pos vs ws with
  | zero => exact .nil
  | succ count ih =>
    unfold arrange
    split
    · exact .cons (.refl _) (ih _ h)
    · cases h with
      | nil => exact .cons (.refl _) (ih _ .nil)
      | cons hv hvs => exact .cons (.value hv) (ih _ hvs)

theorem make_moreTail {f g : FuncItem} (h : f.MoreTail g) {vs ws : List Value}
    (supplied : ValuesMoreTail vs ws) (holes : List Nat) (span : Span) :
    DrawsAlike FuncItem.MoreTail (make f vs holes span) (make g ws holes span) := by
  have same := h.looksLike
  unfold make
  rw [openVariables_eq h, same.type_eq, same.isUpdating_eq, same.annotations_eq, supplied.length_eq]
  refine .common fun scope => .common fun origin => .common fun id => .common fun type => .pure ?_
  have args := arrange_moreTail holes
    (scope.vars.map fun v => Expr.var ⟨v.id, v.slot, v.type, span⟩) 0 (vs.length + holes.length)
    supplied
  exact .item _ _ _ _ _ _ (.closure _ _ .nil (.dynamicCall (.refl _) (.value (.func h)) args))

end PartialApplication

mutual
theorem Expr.MoreTail.copy (r : Renaming) : {e e' : Expr} → e.MoreTail e' →
    DrawsAlike Expr.MoreTail (e.copy r) (e'.copy r)
  | _, _, .value h => .pure (.value h)
  | _, _, .focus span => .pure (.focus span)
  | _, _, .error e => .pure (.error e)
  | _, _, .var ref => .refl .refl _
  | _, _, .letIn _ _ h h' => (h.copy r).bind fun _ _ hv => (h'.copy r).bind fun _ _ hb =>
    .pure (.letIn _ _ hv hb)
  | _, _, .branch span h h' h'' => (h.copy r).bind fun _ _ hc => (h'.copy r).bind fun _ _ hy =>
    (h''.copy r).bind fun _ _ hn => .pure (.branch span hc hy hn)
  | _, _, .arith op span h h' => (h.copy r).bind fun _ _ hl => (h'.copy r).bind fun _ _ hr =>
    .pure (.arith op span hl hr)
  | _, _, .compare op span h h' => (h.copy r).bind fun _ _ hl => (h'.copy r).bind fun _ _ hr =>
    .pure (.compare op span hl hr)
  | _, _, .seq h => (h.copy r).bind fun _ _ hes => .pure (.seq hes)
  | _, _, .treat type span h => (h.copy r).bind fun _ _ he => .pure (.treat type span he)
  | _, _, .builtin function span h => (h.copy r).bind fun _ _ hes =>
    .pure (.builtin function span hes)
  | _, _, .closure h => (h.copy r).bind fun _ _ hc => .pure (.closure hc)
  | _, _, .literal site h => (h.copy r).bind fun _ _ hc => .pure (.literal site hc)
  | _, _, .partialApply site h h' => (h.copy r).bind fun _ _ ht => (h'.copy r).bind fun _ _ hes =>
    .pure (.partialApply site ht hes)
  | _, _, .call hsite h => (h.copy r).bind fun _ _ hes => .pure (.call hsite hes)
  | _, _, .dynamicCall hsite h h' => (h.copy r).bind fun _ _ hf => (h'.copy r).bind fun _ _ hes =>
    .pure (.dynamicCall hsite hf hes)

theorem ListMoreTail.copy (r : Renaming) : {es es' : List Expr} → ListMoreTail es es' →
    DrawsAlike ListMoreTail (copyList r es) (copyList r es')
  | _, _, .nil => .pure .nil
  | _, _, .cons h h' => (h.copy r).bind fun _ _ he => (h'.copy r).bind fun _ _ hes =>
    .pure (.cons he hes)

theorem Closure.MoreTail.copy (outer : Renaming) : {c c' : Closure} → c.MoreTail c' →
    DrawsAlike Closure.MoreTail (c.copy outer) (c'.copy outer)
  | _, _, .closure _ _ _ _ _ _ _ _ h h' => .common fun _ => .common fun _ =>
    (h'.copy _).bind fun _ _ hbody => (h.copy outer _).bind fun _ _ hes =>
      .pure (.closure _ _ _ _ _ _ _ _ hes hbody)

theorem SuppliesMoreTail.copy (outer inner : Renaming) : {es es' : List (VarId × Expr)} →
    SuppliesMoreTail es es' →
    DrawsAlike SuppliesMoreTail (copySupplies outer inner es) (copySupplies outer inner es')
  | _, _, .nil => .pure .nil
  | _, _, .cons _ h h' => .common fun _ => (h.copy outer).bind fun _ _ he =>
    (h'.copy outer inner).bind fun _ _ hes => .pure (.cons _ he hes)
end

structure Options.MoreTail (o o' : Options) : Prop where
  same : o' = { o with tailCalls := o'.tailCalls }
  tail : o.tailCalls = true → o'.tailCalls = true

namespace Options.MoreTail

variable {o o' : Options}

theorem maxDepth_eq (h : o.MoreTail o') : o'.maxDepth = o.maxDepth := by rw [h.same]

theorem stackSize_eq (h : o.MoreTail o') : o'.stackSize = o.stackSize := by rw [h.same]

theorem mixedUpdates_eq (h : o.MoreTail o') : o'.mixedUpdates = o.mixedUpdates := by rw [h.same]

theorem inlineLimit_eq (h : o.MoreTail o') : o'.inlineLimit = o.inlineLimit := by rw [h.same]

theorem seed_eq (h : o.MoreTail o') : o'.seed = o.seed := by rw [h.same]

end Options.MoreTail

structure Entry.MoreTail (e e' : Entry) : Prop where
  same : e' = { e with body := e'.body }
  body : Option.Rel Expr.MoreTail e.body e'.body

namespace Entry.MoreTail

variable {e e' : Entry}

theorem name_eq (h : e.MoreTail e') : e'.name = e.name := by rw [h.same]

theorem arity_eq (h : e.MoreTail e') : e'.arity = e.arity := by rw [h.same]

theorem scope_eq (h : e.MoreTail e') : e'.scope = e.scope := by rw [h.same]

theorem stage_eq (h : e.MoreTail e') : e'.stage = e.stage := by rw [h.same]

theorem declared_eq (h : e.MoreTail e') : e'.declared = e.declared := by rw [h.same]

theorem annotations_eq (h : e.MoreTail e') : e'.annotations = e.annotations := by rw [h.same]

theorem span_eq (h : e.MoreTail e') : e'.span = e.span := by rw [h.same]

theorem calls_eq (h : e.MoreTail e') : e'.calls = e.calls := by rw [h.same]

theorem defined_eq (h : e.MoreTail e') : e'.defined = e.defined := by rw [h.same]

theorem flags_eq (h : e.MoreTail e') : e'.flags = e.flags := by rw [h.same]

theorem firstCall_eq (h : e.MoreTail e') : e'.firstCall = e.firstCall := by
  rw [h.same]
  rfl

theorem params_eq (h : e.MoreTail e') : e'.params = e.params := by rw [h.same]

theorem inlinable_eq (h : e.MoreTail e') {o o' : Options} (ho : o.MoreTail o') :
    e'.inlinable o' = e.inlinable o := by
  have size : e'.body.any (·.size ≤ e.annotations.inlineLimit.getD o.inlineLimit) =
      e.body.any (·.size ≤ e.annotations.inlineLimit.getD o.inlineLimit) := by
    have hbody := h.body
    generalize e.body = body at hbody ⊢
    generalize e'.body = body' at hbody ⊢
    cases hbody with
    | none => rfl
    | some hbody => simp only [Option.any_some, hbody.size_eq]
  rw [h.same]
  simp only [Entry.inlinable, ho.inlineLimit_eq, size]

theorem paramVariables_eq (h : e.MoreTail e') : e'.paramVariables = e.paramVariables := by
  rw [h.same]
  rfl

theorem retType_eq (h : e.MoreTail e') : e'.retType = e.retType := by
  have hbody := h.body
  unfold Entry.retType
  rw [h.declared_eq, h.stage_eq]
  generalize e.body = body at hbody ⊢
  generalize e'.body = body' at hbody ⊢
  cases hbody with
  | none => rfl
  | some hbody =>
    cases e.declared with
    | some type => rfl
    | none => exact if_congr Iff.rfl hbody.inferredType_eq rfl

end Entry.MoreTail

structure Registry.MoreTail (r r' : Registry) : Prop where
  entries : List.Forall₂ Entry.MoreTail r.entries r'.entries

theorem forall₂_getElem? {α β : Type} {rel : α → β → Prop} {as : List α} {bs : List β}
    (h : List.Forall₂ rel as bs) (i : Nat) : Option.Rel rel as[i]? bs[i]? := by
  induction h generalizing i with
  | nil => exact .none
  | cons hab _ ih =>
    cases i with
    | zero => exact .some hab
    | succ i => exact ih i

namespace Registry.MoreTail

variable {r r' : Registry}

theorem refl (r : Registry) : r.MoreTail r where
  entries := by
    refine List.forall₂_same.2 fun e _ => ⟨rfl, ?_⟩
    cases e.body with
    | none => exact .none
    | some body => exact .some (.refl body)

theorem find? (h : r.MoreTail r') (id : FuncId) :
    Option.Rel Entry.MoreTail (r.find? id) (r'.find? id) :=
  forall₂_getElem? h.entries id.index

theorem length_eq (h : r.MoreTail r') : r'.entries.length = r.entries.length :=
  h.entries.length_eq.symm

end Registry.MoreTail

end QueryFunctions
