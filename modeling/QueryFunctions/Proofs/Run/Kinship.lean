import QueryFunctions.Proofs.Law.Simulation
import QueryFunctions.Proofs.Value.Appearance
import QueryFunctions.Run.Evaluation

/-! Relations between values that the built-in functions respect. Kin look alike and consist of kin; what
else relates them is up to the code inside of function items, which only a call looks at. So built-in
functions applied to kin follow one another as soon as the calls that they make do. -/
namespace QueryFunctions

/-- Operations on values respect the relation `values`, which relates function items as `items` does. -/
structure Kinship (values : Value → Value → Prop) (items : FuncItem → FuncItem → Prop) : Prop where
  refl : ∀ v, values v v
  looksLike : ∀ {v w}, values v w → v.LooksLike w
  split : ∀ {v w}, values v w → List.Forall₂ values v.items w.items
  seq : ∀ {vs ws}, List.Forall₂ values vs ws → values (.seq vs) (.seq ws)
  func : ∀ {f g}, values (.func f) (.func g) ↔ items f g

namespace Kinship

variable {values : Value → Value → Prop} {items : FuncItem → FuncItem → Prop}
  (kin : Kinship values items)

include kin

theorem looks {f g : FuncItem} (h : items f g) : f.LooksLike g :=
  Value.func.inj (kin.looksLike (kin.func.2 h))

theorem asFunc {v w : Value} (h : values v w) (span : Span) :
    Ends items (v.asFunc span) (w.asFunc span) := by
  have same := kin.looksLike h
  have name := same.typeName_eq
  cases v <;> cases w <;> simp only [Value.LooksLike, Value.facade, reduceCtorEq] at same
  case func.func => exact .ok (kin.func.1 h)
  all_goals
    simp only [Value.asFunc, name]
    exact .error _

theorem join {vs ws : List Value} (h : List.Forall₂ values vs ws) :
    values (.ofItems vs) (.ofItems ws) := by
  have flat : List.Forall₂ values (vs.flatMap Value.items) (ws.flatMap Value.items) := by
    induction h with
    | nil => exact .nil
    | cons hv _ ih =>
      rw [List.flatMap_cons, List.flatMap_cons]
      exact List.rel_append (kin.split hv) ih
  unfold Value.ofItems
  generalize vs.flatMap Value.items = as at flat ⊢
  generalize ws.flatMap Value.items = bs at flat ⊢
  cases flat with
  | nil => exact kin.seq .nil
  | cons hv rest =>
    cases rest with
    | nil => exact hv
    | cons hw rest => exact kin.seq (.cons hv (.cons hw rest))

end Kinship

/-- Callbacks that `call'` makes follow those that `call` makes, and so do effects on the state. -/
structure Caller.Kindred (like : Likeness RunSetting RunState) (values : Value → Value → Prop)
    (items : FuncItem → FuncItem → Prop) (call call' : Caller) : Prop where
  invoke : ∀ {f g vs ws}, items f g → List.Forall₂ values vs ws → ∀ span,
    like.Follows values (call.invoke f vs span) (call'.invoke g ws span)
  random : ∀ bound, like.Follows Eq (Run.random bound) (Run.random bound)
  addUpdate : ∀ {v w}, values v w →
    like.Follows (fun _ _ => True) (Run.addUpdate v) (Run.addUpdate w)

namespace Builtin

variable {values : Value → Value → Prop} {items : FuncItem → FuncItem → Prop}
  {like : Likeness RunSetting RunState} {call call' : Caller}
  (kin : Kinship values items) (calls : Caller.Kindred like values items call call')

include calls

theorem test_follows (kin : Kinship values items) {f g : FuncItem} (h : items f g) (span : Span)
    {v w : Value} (hv : values v w) :
    like.Follows Eq (test call.invoke f span v) (test call'.invoke g span w) := by
  refine (calls.invoke h (.cons hv .nil) span).bind fun a b hab => ?_
  have same := kin.looksLike hab
  have name := same.typeName_eq
  cases a <;> cases b <;> simp only [Value.LooksLike, Value.facade, reduceCtorEq] at same <;>
    first
    | cases same; exact .pure rfl
    | (dsimp only; rw [name]; exact .throw _)

include kin

theorem applyForEach_follows {seq seq' f f' : Value} (hseq : values seq seq') (hf : values f f')
    (span : Span) :
    like.Follows values (applyForEach call.invoke seq f span)
      (applyForEach call'.invoke seq' f' span) := by
  refine (Likeness.Follows.ofExcept (kin.asFunc hf span)).bind fun f g h => ?_
  have each : ∀ v w, values v w →
      like.Follows values (call.invoke f [v] span) (call'.invoke g [w] span) :=
    fun v w hv => calls.invoke h (.cons hv .nil) span
  exact (Likeness.Follows.mapM each (kin.split hseq)).bind fun vs ws hvs => .pure (kin.join hvs)

theorem applyFilter_follows {seq seq' f f' : Value} (hseq : values seq seq') (hf : values f f')
    (span : Span) :
    like.Follows values (applyFilter call.invoke seq f span)
      (applyFilter call'.invoke seq' f' span) := by
  refine (Likeness.Follows.ofExcept (kin.asFunc hf span)).bind fun f g h => ?_
  have each : ∀ v w, values v w →
      like.Follows Eq (test call.invoke f span v) (test call'.invoke g span w) :=
    fun v w hv => test_follows calls kin h span hv
  exact (Likeness.Follows.filterM each (kin.split hseq)).bind fun vs ws hvs => .pure (kin.join hvs)

theorem applyFoldLeft_follows {seq seq' zero zero' f f' : Value} (hseq : values seq seq')
    (hzero : values zero zero') (hf : values f f') (span : Span) :
    like.Follows values (applyFoldLeft call.invoke seq zero f span)
      (applyFoldLeft call'.invoke seq' zero' f' span) := by
  refine (Likeness.Follows.ofExcept (kin.asFunc hf span)).bind fun f g h => ?_
  have each : ∀ acc acc' v w, values acc acc' → values v w →
      like.Follows values (call.invoke f [acc, v] span) (call'.invoke g [acc', w] span) :=
    fun acc acc' v w hacc hv => calls.invoke h (.cons hacc (.cons hv .nil)) span
  exact Likeness.Follows.foldlM each (kin.split hseq) hzero

theorem apply_one_follows (b : Builtin) {v w : Value} (hv : values v w) (span : Span) :
    like.Follows values (b.apply call.invoke [v] span) (b.apply call'.invoke [w] span) := by
  have same := kin.looksLike hv
  cases b with
  | functionArity =>
    refine (Likeness.Follows.ofExcept (kin.asFunc hv span)).bind fun f g h => ?_
    rw [(kin.looks h).arity_eq]
    exact .pure (kin.refl _)
  | functionName =>
    refine (Likeness.Follows.ofExcept (kin.asFunc hv span)).bind fun f g h => ?_
    rw [(kin.looks h).ofName_eq]
    exact .pure (kin.refl _)
  | count =>
    simp only [apply, (kin.split hv).length_eq]
    exact .pure (kin.refl _)
  | random =>
    simp only [apply, same.asInt_eq]
    refine (Likeness.Follows.ofExcept (.refl (fun _ => rfl) _)).bind fun bound _ same => ?_
    cases same
    refine (calls.random bound).bind fun i _ same => ?_
    cases same
    exact .pure (kin.refl _)
  | error =>
    simp only [apply, same.text_eq]
    exact .throw _
  | output => exact (calls.addUpdate hv).bind fun _ _ _ => .pure (kin.refl _)
  | forEach | filter | foldLeft => exact .throw _

theorem apply_follows (b : Builtin) {vs ws : List Value} (h : List.Forall₂ values vs ws)
    (span : Span) :
    like.Follows values (b.apply call.invoke vs span) (b.apply call'.invoke ws span) := by
  have refused : like.Follows values (throw (.arity b.qualifiedName b.arity vs.length span) : Run Value)
      (throw (.arity b.qualifiedName b.arity ws.length span)) := by
    rw [h.length_eq]
    exact .throw _
  cases h with
  | nil => cases b <;> exact refused
  | cons h₁ h =>
    cases h with
    | nil => exact apply_one_follows kin calls b h₁ span
    | cons h₂ h =>
      cases h with
      | nil =>
        cases b with
        | forEach => exact applyForEach_follows kin calls h₁ h₂ span
        | filter => exact applyFilter_follows kin calls h₁ h₂ span
        | _ => exact refused
      | cons h₃ h =>
        cases h with
        | nil =>
          cases b with
          | foldLeft => exact applyFoldLeft_follows kin calls h₁ h₂ h₃ span
          | _ => exact refused
        | cons _ _ => cases b <;> exact refused

end Builtin

end QueryFunctions
