import QueryFunctions.Proofs.Run.Brackets
import QueryFunctions.Proofs.Tail.Registry

/-! Runs with more tail calls. A frame that is left early is missing from the stack, so stacks are
compared in the current frame only, and a run with more tail calls is never nested deeper. Where no
code is about to run, even the frame does not matter. -/
namespace QueryFunctions

/-- The error of a run that is nested too deep. -/
def QueryError.IsOverflow (e : QueryError) : Prop := ∃ limit, e = .stackOverflow limit

structure RunSetting.MoreTail (r r' : RunSetting) : Prop where
  registry : r.registry.MoreTail r'.registry
  options : r.options.MoreTail r'.options

/-- The second run does not use more of the native stack: a call that it does not nest takes no room. -/
structure Moment.Lighter (m m' : Moment) : Prop where
  cancelled : m'.cancelled = m.cancelled
  stackUse : m'.stackUse ≤ m.stackUse

structure Host.Lighter (h h' : Host) : Prop where
  present : h.present.Lighter h'.present
  future : List.Forall₂ Moment.Lighter h.future h'.future

namespace Host.Lighter

theorem refl (h : Host) : h.Lighter h where
  present := ⟨rfl, Nat.le_refl _⟩
  future := List.forall₂_same.2 fun _ _ => ⟨rfl, Nat.le_refl _⟩

theorem later {h h' : Host} (lighter : h.Lighter h') : h.later.Lighter h'.later := by
  obtain ⟨present, future⟩ := h
  obtain ⟨present', future'⟩ := h'
  cases lighter.future with
  | nil => exact lighter
  | cons next rest => exact ⟨next, rest⟩

end Host.Lighter

/-- What both states have in common: the effects so far, and, where they matter, what the slots of the
current frame hold and the focus. -/
structure RunState.MoreTail (framed focused : Prop) (s s' : RunState) : Prop where
  supply : s'.supply = s.supply
  updates : ValuesMoreTail s.updates s'.updates
  random : s'.random = s.random
  depth : s'.depth ≤ s.depth
  host : Host.Lighter s.host s'.host
  frame : framed → ∀ k, Option.Rel Value.MoreTail s.stack[s.base + k]? s'.stack[s'.base + k]?
  focus : focused → Option.Rel Value.MoreTail s.focus s'.focus

namespace Run

/-- How a run with more tail calls is like one with fewer. An overflow of the latter may be gone. -/
def tails (framed focused : Prop) : Likeness RunSetting RunState where
  settings := RunSetting.MoreTail
  states := RunState.MoreTail framed focused
  excused := QueryError.IsOverflow

end Run

namespace RunState.MoreTail

variable {framed focused : Prop} {s s' : RunState}

theorem outer (h : s.MoreTail framed focused s') : s.MoreTail False False s' :=
  { h with frame := False.elim, focus := False.elim }

theorem size_iff (h : s.MoreTail True focused s') (slot : Nat) :
    s.base + slot < s.stack.size ↔ s'.base + slot < s'.stack.size := by
  have cell := h.frame trivial slot
  constructor
  · intro lt
    rw [Array.getElem?_eq_getElem lt] at cell
    generalize found : s'.stack[s'.base + slot]? = w at cell
    cases cell with
    | some _ => exact (Array.getElem?_eq_some_iff.1 found).1
  · intro lt
    rw [Array.getElem?_eq_getElem lt] at cell
    generalize found : s.stack[s.base + slot]? = v at cell
    cases cell with
    | some _ => exact (Array.getElem?_eq_some_iff.1 found).1

end RunState.MoreTail

namespace Run

variable {framed focused : Prop} {α β : Type} {rel : α → β → Prop}

theorem draw_follows {act : Supplied α} {act' : Supplied β} (h : DrawsAlike rel act act') :
    (tails framed focused).Follows rel (draw act) (draw act') := by
  intro r r' s s' _ hs result t run _
  unfold draw at run
  split at run
  · rename_i a supply drawn
    cases run
    obtain ⟨b, drawn', hab⟩ := h _ _ _ drawn
    refine ⟨.ok b, { s' with supply }, ?_, .ok hab, { hs with supply := rfl }⟩
    simp only [draw, hs.supply, drawn']
  · cases run

theorem get_follows (slot : Nat) :
    (tails True focused).Follows Value.MoreTail (Run.get slot) (Run.get slot) := by
  refine Likeness.Follows.get.bind fun s s' hs => ?_
  have cell := hs.frame trivial slot
  generalize s.stack[s.base + slot]? = v at cell ⊢
  generalize s'.stack[s'.base + slot]? = w at cell ⊢
  cases cell with
  | some h => exact .pure h
  | none => exact .of_fault fun r t => ⟨_, _, rfl⟩

theorem set_follows (slot : Nat) {v w : Value} (h : v.MoreTail w) :
    (tails True focused).Follows (fun _ _ => True) (Run.set slot v) (Run.set slot w) := by
  refine Likeness.Follows.get.bind fun s s' hs => ?_
  refine .ite (hs.size_iff slot) (.modify fun t t' ht => ?_) (.of_fault fun r t => ⟨_, _, rfl⟩)
  refine { ht with frame := fun _ k => ?_ }
  have inside := ht.size_iff slot
  simp only [Array.getElem?_setIfInBounds, Nat.add_left_cancel_iff]
  by_cases here : slot = k
  · by_cases lt : t.base + slot < t.stack.size
    · rw [if_pos here, if_pos lt, if_pos here, if_pos (inside.1 lt)]
      exact .some h
    · rw [if_pos here, if_neg lt, if_pos here, if_neg fun lt' => lt (inside.2 lt')]
      exact .none
  · rw [if_neg here, if_neg here]
    exact ht.frame trivial k

theorem focus_follows (span : Span) :
    (tails framed True).Follows Value.MoreTail (Run.focus span) (Run.focus span) := by
  refine Likeness.Follows.get.bind fun s s' hs => ?_
  have focus := hs.focus trivial
  generalize s.focus = v at focus ⊢
  generalize s'.focus = w at focus ⊢
  cases focus with
  | some h => exact .pure h
  | none => exact .throw _

theorem checkInterrupt_follows :
    (tails framed focused).Follows (fun _ _ => True) checkInterrupt checkInterrupt := by
  have now : (tails framed focused).Follows (fun now now' => now'.cancelled = now.cancelled)
      nextMoment nextMoment :=
    .modifyGet fun s s' hs => ⟨hs.host.present.cancelled, { hs with host := hs.host.later }⟩
  refine now.bind fun moment moment' same => ?_
  rw [same]
  exact .ite Iff.rfl (.throw _) (.pure trivial)

theorem checkOverflow_follows :
    (tails framed focused).Follows (fun _ _ => True) checkOverflow checkOverflow := by
  refine Likeness.Follows.get.bind fun s s' hs => Likeness.Follows.read.bind fun r r' hr => ?_
  cases full : s.overflow? r.options with
  | some e => exact .excuse (RunState.exists_of_overflow? full)
  | none =>
    obtain ⟨shallow, light⟩ := RunState.overflow?_eq_none_iff.1 full
    have room : s'.overflow? r'.options = none := by
      rw [RunState.overflow?_eq_none_iff, hr.options.maxDepth_eq, hr.options.stackSize_eq]
      exact ⟨Nat.lt_of_le_of_lt hs.depth shallow, Nat.le_trans hs.host.present.stackUse light⟩
    rw [room]
    exact .pure trivial

theorem addUpdate_follows {v w : Value} (h : v.MoreTail w) :
    (tails framed focused).Follows (fun _ _ => True) (addUpdate v) (addUpdate w) := by
  refine .modify fun s s' hs => ?_
  exact { hs with updates := hs.updates.append (.cons h .nil) }

theorem random_follows (bound : Int64) :
    (tails framed focused).Follows (· = ·) (Run.random bound) (Run.random bound) := by
  rintro r r' s s' - hs _ _ ⟨⟩ -
  refine ⟨_, _, rfl, .ok ?_, { hs with random := ?_ }⟩
  · simp only [hs.random]
  · simp only [hs.random]

theorem nested_follows {act : Run α} {act' : Run β} (h : (tails False False).Follows rel act act') :
    (tails False False).Follows rel (nested act) (nested act') :=
  nested_leaving_follows checkOverflow_follows
    (fun hs => { hs with depth := Nat.succ_le_succ hs.depth })
    (fun hs => { hs with depth := Nat.sub_le_sub_right hs.depth 1 }) h

end Run

namespace RunState.MoreTail

variable {framed focused : Prop} {s s' t t' : RunState}

theorem unfocused (h : s.MoreTail framed focused s') :
    (s.focused none).MoreTail framed True (s'.focused none) :=
  { h with focus := fun _ => .none }

theorem refocused (h : s.MoreTail framed focused s') (ht : t.MoreTail framed True t') :
    (t.focused s.focus).MoreTail framed focused (t'.focused s'.focus) :=
  { ht with focus := h.focus }

theorem pushed (h : s.MoreTail False focused s') (size : Nat) :
    (s.pushed size).MoreTail True focused (s'.pushed size) := by
  refine { h with frame := fun _ k => ?_ }
  simp only [RunState.pushed, Array.getElem?_append_right (Nat.le_add_right _ _),
    Nat.add_sub_cancel_left]
  generalize (Array.replicate size Value.empty)[k]? = v
  cases v with
  | none => exact .none
  | some v => exact .some (.refl v)

theorem popped (h : t.MoreTail True focused t') (base base' : Nat) :
    (t.popped base).MoreTail False focused (t'.popped base') :=
  { h with frame := False.elim }

end RunState.MoreTail

namespace Run

variable {focused : Prop} {α β : Type} {rel : α → β → Prop}

theorem inFrame_follows (size : Nat) {act : Run α} {act' : Run β}
    (h : (tails True focused).Follows rel act act') :
    (tails False focused).Follows rel (inFrame size act) (inFrame size act') :=
  have settings : (tails True focused).settings = (tails False focused).settings := rfl
  leaving_follows (inFrame_run size act) (inFrame_run size act') settings rfl (fun hs => hs.pushed size)
    (fun _ ht => ht.popped _ _) h

theorem takeUpdates_follows {framed : Prop} :
    (tails framed focused).Follows ValuesMoreTail takeUpdates takeUpdates := by
  rintro r r' s s' - hs _ _ ⟨⟩ -
  exact ⟨_, _, rfl, .ok hs.updates, { hs with updates := .nil }⟩

end Run

end QueryFunctions
