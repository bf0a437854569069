import QueryFunctions.Proofs.Alpha.Basic
import QueryFunctions.Proofs.Run.Brackets

/-! Two runs in lockstep, from states that are the same up to identities of variables. Both draw the same
identities and the same random numbers, and ask for the same updates. -/
namespace QueryFunctions

theorem Scope.Renames.filterMap_find? {G : Pairing} {s t : Scope} (scope : s.Renames G t)
    (distinct : OneToOne G) {ps qs : List VarId} (params : List.Forall₂ G ps qs) :
    List.Forall₂ (Variable.Renames G) (ps.filterMap s.find?) (qs.filterMap t.find?) := by
  induction params with
  | nil => exact .nil
  | @cons p q _ _ paired _ ih =>
    have found := scope.find? distinct paired
    rw [List.filterMap_cons, List.filterMap_cons]
    generalize s.find? p = v at found ⊢
    generalize t.find? q = w at found ⊢
    cases found with
    | none => exact ih
    | some h => exact .cons h ih

namespace PartialApplication

theorem openVariables_renames {f g : FuncItem} (h : f.Renames g) (scope : Scope) (first : Nat)
    (holes : List Nat) : openVariables g scope first holes = openVariables f scope first holes := by
  induction holes generalizing scope first with
  | nil => rfl
  | cons hole holes ih => simp only [openVariables, h.paramName?_eq, ih]

theorem arrange_renames (holes : List Nat) (params : List Expr) (pos count : Nat) {vs ws : List Value}
    (h : ValuesRename vs ws) :
    ListRename Eq (arrange holes params pos count vs) (arrange holes params pos count ws) := by
  induction count generalizing pos vs ws with
  | zero => exact .nil
  | succ count ih =>
    unfold arrange
    cases (holes.idxOf? pos).bind (params[·]?) with
    | some param => exact .cons (.refl param) (ih _ h)
    | none =>
      cases h with
      | nil => exact .cons (.refl _) (ih _ .nil)
      | cons hv hvs => exact .cons (.value hv) (ih _ hvs)

theorem make_renames {f g : FuncItem} (h : f.Renames g) {vs ws : List Value}
    (supplied : ValuesRename vs ws) (holes : List Nat) (span : Span) :
    DrawsAlike FuncItem.Renames (make f vs holes span) (make g ws holes span) := by
  have same := h.looksLike
  unfold make
  rw [openVariables_renames h, same.type_eq, same.isUpdating_eq, same.annotations_eq, supplied.length_eq]
  refine .common fun scope => .common fun origin => .common fun id => .common fun type => .pure ?_
  exact .item _ _ _ _ _ _ (.closure OneToOne.eq (.refl scope) (Variable.Renames.refl_all _) .nil
    (.dynamicCall _ (.value (.func h)) (arrange_renames holes _ 0 _ supplied)))

end PartialApplication

structure RunState.Renames (s s' : RunState) : Prop where
  supply : s'.supply = s.supply
  size : s'.stack.size = s.stack.size
  cells : ∀ i : Nat, Option.Rel Value.Renames s.stack[i]? s'.stack[i]?
  base : s'.base = s.base
  depth : s'.depth = s.depth
  focus : Option.Rel Value.Renames s.focus s'.focus
  updates : ValuesRename s.updates s'.updates
  random : s'.random = s.random
  host : s'.host = s.host

/-- Runs in the same setting that are alike up to identities of variables, errors included. -/
def Run.renamings : Likeness RunSetting RunState where
  settings := Eq
  states := RunState.Renames
  excused _ := False

theorem Value.Renames.option : (v : Option Value) → Option.Rel Value.Renames v v
  | none => .none
  | some v => .some (.refl v)

namespace RunState.Renames

variable {s s' : RunState}

theorem refl (s : RunState) : s.Renames s :=
  ⟨rfl, rfl, fun _ => Value.Renames.option _, rfl, rfl, Value.Renames.option _, .refl _, rfl, rfl⟩

theorem symm (h : s.Renames s') : s'.Renames s := by
  have back {v w : Option Value} : Option.Rel Value.Renames v w → Option.Rel Value.Renames w v
    | .none => .none
    | .some same => .some same.symm
  exact ⟨h.supply.symm, h.size.symm, fun i => back (h.cells i), h.base.symm, h.depth.symm, back h.focus,
    h.updates.symm, h.random.symm, h.host.symm⟩

theorem pushed (h : s.Renames s') (size : Nat) : (s.pushed size).Renames (s'.pushed size) where
  supply := h.supply
  size := by simp only [RunState.pushed, Array.size_append, h.size]
  cells i := by
    simp only [RunState.pushed, Array.getElem?_append, h.size]
    split
    · exact h.cells i
    · exact Value.Renames.option _
  base := h.size
  depth := h.depth
  focus := h.focus
  updates := h.updates
  random := h.random
  host := h.host

theorem popped (h : s.Renames s') (base : Nat) : (s.popped base).Renames (s'.popped base) where
  supply := h.supply
  size := by simp only [RunState.popped, Array.size_shrink, h.size, h.base]
  cells i := by
    simp only [RunState.popped, Array.shrink_eq_take, Array.take_eq_extract,
      Array.getElem?_extract, h.base, h.size, Nat.zero_add]
    split
    · exact h.cells i
    · exact .none
  base := rfl
  depth := h.depth
  focus := h.focus
  updates := h.updates
  random := h.random
  host := h.host

theorem deeper (h : s.Renames s') : s.deeper.Renames s'.deeper :=
  { h with depth := congrArg (· + 1) h.depth }

theorem shallower (h : s.Renames s') : s.shallower.Renames s'.shallower :=
  { h with depth := congrArg (· - 1) h.depth }

theorem focused (h : s.Renames s') {v w : Option Value} (hv : Option.Rel Value.Renames v w) :
    (s.focused v).Renames (s'.focused w) :=
  { h with focus := hv }

theorem later (h : s.Renames s') : s.later.Renames s'.later :=
  { h with host := by simp only [RunState.later, h.host] }

theorem overflow?_eq (h : s.Renames s') (options : Options) :
    s'.overflow? options = s.overflow? options := by
  unfold RunState.overflow?
  rw [h.depth, h.host]

end RunState.Renames

namespace Run

variable {α β : Type} {rel : α → β → Prop}

theorem draw_renames {act : Supplied α} {act' : Supplied β} (h : DrawsAlike rel act act') :
    renamings.Follows rel (draw act) (draw act') := by
  intro r r' s s' _ hs result t run _
  unfold draw at run
  split at run
  · rename_i a supply drawn
    cases run
    obtain ⟨b, drawn', hab⟩ := h _ _ _ drawn
    refine ⟨.ok b, { s' with supply }, ?_, .ok hab, { hs with supply := rfl }⟩
    simp only [draw, hs.supply, drawn']
  · cases run

theorem get_renames (slot : Nat) : renamings.Follows Value.Renames (Run.get slot) (Run.get slot) := by
  refine Likeness.Follows.get.bind fun s s' hs => ?_
  have cell := hs.cells (s.base + slot)
  rw [hs.base]
  generalize s.stack[s.base + slot]? = v at cell ⊢
  generalize s'.stack[s.base + slot]? = w at cell ⊢
  cases cell with
  | some h => exact .pure h
  | none => exact .of_fault fun r t => ⟨_, _, rfl⟩

theorem set_renames (slot : Nat) {v w : Value} (h : v.Renames w) :
    renamings.Follows (fun _ _ => True) (Run.set slot v) (Run.set slot w) := by
  refine Likeness.Follows.get.bind fun s s' hs => ?_
  rw [hs.base, hs.size]
  refine .ite Iff.rfl (.modify fun t t' ht => ?_) (.of_fault fun r t => ⟨_, _, rfl⟩)
  refine { ht with size := ?_, cells := fun i => ?_ }
  · simp only [Array.size_setIfInBounds, ht.size]
  · simp only [Array.getElem?_setIfInBounds, ht.size, ht.base]
    split
    · split
      · exact .some h
      · exact .none
    · exact ht.cells i

theorem focus_renames (span : Span) :
    renamings.Follows Value.Renames (Run.focus span) (Run.focus span) := by
  refine Likeness.Follows.get.bind fun s s' hs => ?_
  have focus := hs.focus
  generalize s.focus = v at focus ⊢
  generalize s'.focus = w at focus ⊢
  cases focus with
  | some h => exact .pure h
  | none => exact .throw _

theorem checkInterrupt_renames :
    renamings.Follows (fun _ _ => True) checkInterrupt checkInterrupt := by
  have now : renamings.Follows (· = ·) nextMoment nextMoment :=
    .modifyGet fun s s' hs => ⟨congrArg Host.present hs.host.symm, hs.later⟩
  refine now.bind fun moment _ same => ?_
  cases same
  exact .ite Iff.rfl (.throw _) (.pure trivial)

theorem addUpdate_renames {v w : Value} (h : v.Renames w) :
    renamings.Follows (fun _ _ => True) (addUpdate v) (addUpdate w) := by
  refine .modify fun s s' hs => ?_
  exact { hs with updates := hs.updates.append (.cons h .nil) }

theorem random_renames (bound : Int64) :
    renamings.Follows (· = ·) (Run.random bound) (Run.random bound) := by
  rintro r r' s s' - hs _ _ ⟨⟩ -
  refine ⟨_, _, rfl, .ok ?_, { hs with random := ?_ }⟩
  · simp only [hs.random]
  · simp only [hs.random]

theorem inFrame_renames (size : Nat) {act : Run α} {act' : Run β}
    (h : renamings.Follows rel act act') :
    renamings.Follows rel (inFrame size act) (inFrame size act') := by
  refine leaving_follows (inFrame_run size act) (inFrame_run size act') rfl rfl
    (fun hs => hs.pushed size) (fun {s s' _ _} hs ht => ?_) h
  rw [hs.base]
  exact ht.popped s.base

theorem withoutFocus_renames {act : Run α} {act' : Run β} (h : renamings.Follows rel act act') :
    renamings.Follows rel (withoutFocus act) (withoutFocus act') :=
  leaving_follows (withoutFocus_run act) (withoutFocus_run act') rfl rfl
    (fun hs => hs.focused .none) (fun hs ht => ht.focused hs.focus) h

theorem nested_renames {act : Run α} {act' : Run β} (h : renamings.Follows rel act act') :
    renamings.Follows rel (nested act) (nested act') := by
  refine nested_leaving_follows ?_ (fun hs => hs.deeper) (fun hs => hs.shallower) h
  refine Likeness.Follows.get.bind fun s s' hs => Likeness.Follows.read.bind fun r r' same => ?_
  cases (same : r = r')
  rw [hs.overflow?_eq]
  cases s.overflow? r.options with
  | some e => exact .throw e
  | none => exact .pure trivial

end Run

end QueryFunctions
