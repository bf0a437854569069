import QueryFunctions.Proofs.Law.Simulation

/-! Slots of the current frame, the focus, and computations in a frame of their own, one level deeper or
without a focus, as equations on outcomes. A change is taken back after a value and after an error alike;
after a fault there is nothing to go on with, and the state is left as it was met. -/
namespace QueryFunctions

namespace Run

variable {slot : Nat} {v : Value} {r : RunSetting} {s t : RunState}

theorem get_eq (slot : Nat) (r : RunSetting) (s : RunState) : get slot r s =
    match s.stack[s.base + slot]? with
    | some v => (.ok (.ok v), s)
    | none => (.error (.slotOutsideFrame slot), s) := by
  have run : get slot r s = (match s.stack[s.base + slot]? with
    | some v => (return v : Run Value)
    | none => fault (.slotOutsideFrame slot)) r s := rfl
  rw [run]
  cases s.stack[s.base + slot]? <;> rfl

theorem set_eq (slot : Nat) (v : Value) (r : RunSetting) (s : RunState) : set slot v r s =
    if s.base + slot < s.stack.size then
      (.ok (.ok ()), { s with stack := s.stack.setIfInBounds (s.base + slot) v })
    else (.error (.slotOutsideFrame slot), s) := by
  have run : set slot v r s = (if s.base + slot < s.stack.size then
      (modify fun s => { s with stack := s.stack.setIfInBounds (s.base + slot) v } : Run Unit)
    else fault (.slotOutsideFrame slot)) r s := rfl
  rw [run]
  split <;> rfl

theorem focus_eq (span : Span) (r : RunSetting) (s : RunState) : focus span r s =
    match s.focus with
    | some v => (.ok (.ok v), s)
    | none => (.ok (.error (QueryError.noFocus span)), s) := by
  have run : focus span r s = (match s.focus with
    | some v => (return v : Run Value)
    | none => throw (QueryError.noFocus span)) r s := rfl
  rw [run]
  cases s.focus <;> rfl

theorem get_ok_iff : get slot r s = (.ok (.ok v), t) ↔ s.stack[s.base + slot]? = some v ∧ t = s := by
  rw [get_eq]
  cases s.stack[s.base + slot]? with
  | some w =>
    refine ⟨fun run => ?_, fun ⟨here, same⟩ => ?_⟩
    · cases run
      exact ⟨rfl, rfl⟩
    · cases here
      rw [same]
  | none => exact ⟨fun run => (by cases run), fun ⟨here, _⟩ => (by cases here)⟩

theorem set_ok_iff : set slot v r s = (.ok (.ok ()), t) ↔ s.base + slot < s.stack.size ∧
    t = { s with stack := s.stack.setIfInBounds (s.base + slot) v } := by
  rw [set_eq]
  split
  · rename_i inside
    refine ⟨fun run => ?_, fun ⟨_, same⟩ => by rw [same]⟩
    cases run
    exact ⟨inside, rfl⟩
  · rename_i outside
    exact ⟨fun run => (by cases run), fun ⟨inside, _⟩ => absurd inside outside⟩

theorem focus_ok_iff {span : Span} :
    focus span r s = (.ok (.ok v), t) ↔ s.focus = some v ∧ t = s := by
  rw [focus_eq]
  cases s.focus with
  | some w =>
    refine ⟨fun run => ?_, fun ⟨here, same⟩ => ?_⟩
    · cases run
      exact ⟨rfl, rfl⟩
    · cases here
      rw [same]
  | none => exact ⟨fun run => (by cases run), fun ⟨here, _⟩ => (by cases here)⟩

end Run

namespace RunState

def pushed (size : Nat) (s : RunState) : RunState :=
  { s with stack := s.stack ++ Array.replicate size .empty, base := s.stack.size }

/-- The state without its current frame. The frame below starts at `base`. -/
def popped (base : Nat) (s : RunState) : RunState :=
  { s with stack := s.stack.shrink s.base, base }

def deeper (s : RunState) : RunState := { s with depth := s.depth + 1 }

def shallower (s : RunState) : RunState := { s with depth := s.depth - 1 }

def focused (focus : Option Value) (s : RunState) : RunState := { s with focus }

/-- Cells that a frame is pushed on are there when it is dropped, if they were left alone. -/
theorem shrink_eq {s t : RunState} {n : Nat} (size : t.stack.size = s.stack.size + n)
    (below : ∀ i < s.stack.size, t.stack[i]? = s.stack[i]?) :
    t.stack.shrink s.stack.size = s.stack := by
  apply Array.ext
  · rw [Array.size_shrink]
    omega
  · intro i _ hi
    have same := below i hi
    rw [Array.getElem?_eq_getElem hi, Array.getElem?_eq_getElem (by omega)] at same
    rw [Array.getElem_shrink, Option.some.inj same]

end RunState

namespace Run

variable {α : Type}

/-- An outcome whose state is changed once more, unless there was a fault. -/
def leaving (leave : RunState → RunState) :
    Except Fault (Except QueryError α) × RunState → Except Fault (Except QueryError α) × RunState
  | (.ok result, t) => (.ok result, leave t)
  | (.error f, t) => (.error f, t)

theorem bracket_run (enter leave : RunState → RunState) (act : Run α) (r : RunSetting)
    (s : RunState) :
    (do
      modify enter
      let result ← attempt act
      modify leave
      ofExcept result : Run α) r s = leaving leave (act r (enter s)) := by
  change (attempt act >>= fun result => (do modify leave; ofExcept result : Run α)) r (enter s) = _
  rw [Computation.run_bind]
  simp only [attempt]
  rcases act r (enter s) with ⟨f | e | v, t⟩ <;> rfl

theorem inFrame_run (size : Nat) (act : Run α) (r : RunSetting) (s : RunState) :
    inFrame size act r s = leaving (.popped s.base) (act r (s.pushed size)) := by
  rw [← bracket_run, inFrame, Computation.run_bind, Computation.run_bind]
  rfl

theorem withoutFocus_run (act : Run α) (r : RunSetting) (s : RunState) :
    withoutFocus act r s = leaving (.focused s.focus) (act r (s.focused none)) := by
  rw [← bracket_run, withoutFocus, Computation.run_bind]
  rfl

theorem checkOverflow_run (r : RunSetting) (s : RunState) :
    checkOverflow r s = match s.overflow? r.options with
      | some e => (.ok (.error e), s)
      | none => (.ok (.ok ()), s) := by
  have run : checkOverflow r s = (match s.overflow? r.options with
    | some e => (throw e : Run Unit)
    | none => return) r s := rfl
  rw [run]
  cases s.overflow? r.options <;> rfl

theorem checkInterrupt_run (r : RunSetting) (s : RunState) :
    checkInterrupt r s =
    (.ok (if (s.host.present).cancelled then .error .cancelled else .ok ()), s.later) := by
  have run : checkInterrupt r s =
      (if (s.host.present).cancelled then (throw .cancelled : Run Unit) else pure ()) r s.later := rfl
  rw [run]
  split <;> rfl

theorem nested_run (act : Run α) (r : RunSetting) (s : RunState) :
    nested act r s = match s.overflow? r.options with
      | some e => (.ok (.error e), s)
      | none => leaving .shallower (act r s.deeper) := by
  rw [← bracket_run, nested, Computation.run_bind, checkOverflow_run]
  cases s.overflow? r.options <;> rfl

section

variable {β : Type} {rel : α → β → Prop} {like like' : Likeness RunSetting RunState}

/-- Brackets follow one another if the computations between do, from states that are still alike. -/
theorem leaving_follows {act inner : Run α} {act' inner' : Run β} {enter enter' : RunState → RunState}
    {leave leave' : RunState → RunState → RunState}
    (run : ∀ r s, act r s = leaving (leave s) (inner r (enter s)))
    (run' : ∀ r s, act' r s = leaving (leave' s) (inner' r (enter' s)))
    (settings : like'.settings = like.settings) (excused : like'.excused = like.excused)
    (entered : ∀ {s s'}, like.states s s' → like'.states (enter s) (enter' s'))
    (left : ∀ {s s' t t'}, like.states s s' → like'.states t t' →
      like.states (leave s t) (leave' s' t'))
    (h : like'.Follows rel inner inner') : like.Follows rel act act' := by
  intro r r' s s' hr hs result u ran free
  rw [run] at ran
  rw [run']
  rcases first : inner r (enter s) with ⟨f | ended, t⟩
  · rw [first] at ran
    cases ran
  · rw [first] at ran
    cases ran
    obtain ⟨ended', t', second, ends, ht⟩ :=
      h r r' _ _ (settings ▸ hr) (entered hs) _ _ first (excused ▸ free)
    rw [second]
    exact ⟨_, _, rfl, ends, left hs ht⟩

/-- A call one level deeper follows another if an overflow of the second is one of the first, or excused. -/
theorem nested_leaving_follows {act : Run α} {act' : Run β}
    (room : like.Follows (fun _ _ => True) checkOverflow checkOverflow)
    (deeper : ∀ {s s'}, like.states s s' → like.states s.deeper s'.deeper)
    (shallower : ∀ {s s'}, like.states s s' → like.states s.shallower s'.shallower)
    (h : like.Follows rel act act') : like.Follows rel (nested act) (nested act') :=
  room.bind fun _ _ _ => leaving_follows (bracket_run _ _ act) (bracket_run _ _ act') rfl rfl deeper
    (fun _ => shallower) h

end

/-- What the computation between keeps in the changed state is kept, if it holds up to the change
and back. -/
theorem leaving_keeps {law law' : Law RunState} {leave : RunState → RunState} {act inner : Run α}
    {r : RunSetting} {s t : RunState} {post : α → Prop}
    (run : act r s = leaving leave (inner r t)) (kept : law'.Keeps r t inner fun a _ => post a)
    (back : ∀ u, law'.holds u → law'.leads t u → law.holds (leave u) ∧ law.leads s (leave u)) :
    law.Keeps r s act fun a _ => post a := by
  intro result w ran
  rw [run] at ran
  cases h : inner r t with
  | mk ended u =>
    rw [h] at ran
    cases ended with
    | error f => cases ran
    | ok ended =>
      cases ran
      obtain ⟨hu, htu, value⟩ := kept _ _ h
      obtain ⟨hw, hsw⟩ := back u hu htu
      exact ⟨hw, hsw, value⟩

theorem nested_leaving_keeps {law : Law RunState} {act : Run α} {r : RunSetting} {s : RunState}
    {post : α → Prop} (hs : law.holds s) (kept : law.Keeps r s.deeper act fun a _ => post a)
    (back : ∀ u, law.holds u → law.leads s.deeper u →
      law.holds u.shallower ∧ law.leads s u.shallower) :
    law.Keeps r s (nested act) fun a _ => post a := by
  have run := nested_run act r s
  cases full : s.overflow? r.options with
  | some e =>
    have thrown : law.Keeps r s (throw e) fun a _ => post a := Law.Keeps.throw hs
    rw [full] at run
    exact Law.Keeps.after run (law.refl s) thrown
  | none =>
    rw [full] at run
    exact leaving_keeps run kept back

end Run

end QueryFunctions
