import QueryFunctions.Proofs.Law.Basic
import QueryFunctions.Proofs.Law.Supplied
import QueryFunctions.Proofs.Standard.Basic
import QueryFunctions.Proofs.Run.Brackets
import QueryFunctions.Run.Evaluation

/-! The law of a run: values on the stack meet the standard, and a computation changes nothing but what its
allowance names. A call made in a frame of its own, one level deeper or without a focus, takes the change
back whether it ended with a value or with an error, and so leaves every slot of its caller alone. -/
namespace QueryFunctions

namespace RunState

/-- All values that code can reach meet the standard. -/
structure Meets (d : Standard) (s : RunState) : Prop where
  stack : ∀ v ∈ s.stack, v.Meets d
  focus : ∀ v, s.focus = some v → v.Meets d

/-- How a state may change between the start and the end of a computation. -/
structure Allows (a : Allowance) (s t : RunState) : Prop where
  base : t.base = s.base
  size : t.stack.size = s.stack.size
  depth : t.depth = s.depth
  focus : t.focus = s.focus
  cells : ∀ i, (∀ k, i = s.base + k → ¬a.slot k) → t.stack[i]? = s.stack[i]?
  updates : ∃ more, t.updates = s.updates ++ more ∧ (a.updates ∨ more = [])
  random : a.draws ∨ t.random = s.random

namespace Allows

variable {a b : Allowance} {s t u : RunState}

theorem refl (a : Allowance) (s : RunState) : Allows a s s where
  base := rfl
  size := rfl
  depth := rfl
  focus := rfl
  cells _ _ := rfl
  updates := ⟨[], by simp, .inr rfl⟩
  random := .inr rfl

theorem trans (first : Allows a s t) (second : Allows a t u) : Allows a s u where
  base := second.base.trans first.base
  size := second.size.trans first.size
  depth := second.depth.trans first.depth
  focus := second.focus.trans first.focus
  cells i free := by
    rw [second.cells i (by rw [first.base]; exact free), first.cells i free]
  updates := by
    obtain ⟨more, eq, ok⟩ := first.updates
    obtain ⟨rest, eq', ok'⟩ := second.updates
    refine ⟨more ++ rest, by rw [eq', eq, List.append_assoc], ?_⟩
    rcases ok with ok | rfl
    · exact .inl ok
    · simpa using ok'
  random := by
    rcases first.random with ok | eq
    · exact .inl ok
    · exact second.random.imp id fun eq' => eq'.trans eq

theorem mono (h : a ≤ b) (kept : Allows a s t) : Allows b s t where
  base := kept.base
  size := kept.size
  depth := kept.depth
  focus := kept.focus
  cells i free := kept.cells i fun k hk ok => free k hk (h.slot ok)
  updates := by
    obtain ⟨more, eq, ok⟩ := kept.updates
    exact ⟨more, eq, ok.imp h.updates id⟩
  random := kept.random.imp h.draws id

theorem updates_eq (kept : Allows a s t) (quiet : ¬a.updates) : t.updates = s.updates := by
  obtain ⟨more, eq, ok⟩ := kept.updates
  rw [eq, ok.resolve_left quiet, List.append_nil]

theorem random_eq (kept : Allows a s t) (deterministic : ¬a.draws) : t.random = s.random :=
  kept.random.resolve_left deterministic

end Allows

end RunState

def runLaw (d : Standard) (a : Allowance) : Law RunState where
  holds := RunState.Meets d
  leads := RunState.Allows a
  refl := RunState.Allows.refl a
  trans := RunState.Allows.trans

namespace Run

variable {d : Standard} {a b : Allowance} {r : RunSetting} {s : RunState} {α : Type}

theorem keeps_mono {act : Run α} {post : α → RunState → Prop} (h : a ≤ b)
    (kept : (runLaw d a).Keeps r s act post) : (runLaw d b).Keeps r s act post := by
  intro result t run
  obtain ⟨ht, hst, value⟩ := kept result t run
  exact ⟨ht, hst.mono h, value⟩

theorem get_keeps (hs : s.Meets d) (slot : Nat) :
    (runLaw d a).Keeps r s (Run.get slot) fun v _ => v.Meets d := by
  refine Law.Keeps.bind (Law.Keeps.get hs) fun _ t _ _ same => ?_
  obtain ⟨rfl, rfl⟩ := same
  cases found : t.stack[t.base + slot]? with
  | none => exact Law.Keeps.of_fault rfl
  | some v => exact Law.Keeps.pure hs (hs.stack v (Array.mem_of_getElem? found))

theorem set_keeps (hs : s.Meets d) {slot : Nat} {v : Value} (allowed : a.slot slot)
    (hv : v.Meets d) : (runLaw d a).Keeps r s (Run.set slot v) fun _ _ => True := by
  refine Law.Keeps.bind (Law.Keeps.get hs) fun _ t _ _ same => ?_
  obtain ⟨rfl, rfl⟩ := same
  split
  · refine Law.Keeps.of_eq rfl ⟨?_, hs.focus⟩ ?_ trivial
    · intro w hw
      rcases Array.mem_or_eq_of_mem_setIfInBounds hw with old | rfl
      · exact hs.stack w old
      · exact hv
    · refine { RunState.Allows.refl a t with size := by simp, cells := fun i free => ?_ }
      have apart : t.base + slot ≠ i := fun eq => free slot eq.symm allowed
      simp [apart]
  · exact Law.Keeps.of_fault rfl

theorem focus_keeps (hs : s.Meets d) (span : Span) :
    (runLaw d a).Keeps r s (Run.focus span) fun v _ => v.Meets d := by
  refine Law.Keeps.bind (Law.Keeps.get hs) fun _ t _ _ same => ?_
  obtain ⟨rfl, rfl⟩ := same
  cases found : t.focus with
  | none => exact Law.Keeps.throw hs
  | some v => exact Law.Keeps.pure hs (hs.focus v found)

theorem checkInterrupt_keeps (hs : s.Meets d) :
    (runLaw d a).Keeps r s checkInterrupt fun _ _ => True := by
  have kept : (runLaw d a).Keeps r s nextMoment fun _ _ => True :=
    Law.Keeps.of_eq rfl ⟨hs.stack, hs.focus⟩ { RunState.Allows.refl a s with } trivial
  refine kept.bind fun now t ht _ _ => ?_
  split
  · exact Law.Keeps.throw ht
  · exact Law.Keeps.pure ht trivial

theorem addUpdate_keeps (hs : s.Meets d) (allowed : a.updates) (v : Value) :
    (runLaw d a).Keeps r s (addUpdate v) fun _ _ => True :=
  Law.Keeps.of_eq rfl ⟨hs.stack, hs.focus⟩
    { RunState.Allows.refl a s with updates := ⟨[v], rfl, .inl allowed⟩ } trivial

theorem random_keeps (hs : s.Meets d) (allowed : a.draws) (bound : Int64) :
    (runLaw d a).Keeps r s (Run.random bound) fun _ _ => True :=
  Law.Keeps.of_eq rfl ⟨hs.stack, hs.focus⟩
    { RunState.Allows.refl a s with random := .inl allowed } trivial

theorem draw_keeps (hs : s.Meets d) {act : Supplied α} {post : α → Prop} (drawn : Yields act post) :
    (runLaw d a).Keeps r s (Run.draw act) fun x _ => post x := by
  intro result t run
  cases h : act s.supply with
  | error f =>
    simp only [Run.draw, h] at run
    cases run
  | ok p =>
    simp only [Run.draw, h] at run
    cases run
    refine ⟨⟨hs.stack, hs.focus⟩, { RunState.Allows.refl a s with }, ?_⟩
    rintro _ ⟨⟩
    exact (drawn s.supply p.1 p.2 h).2

end Run

namespace RunState.Allows

variable {a : Allowance} {s t : RunState} {size : Nat}

theorem shallower (kept : Allows a s.deeper t) : Allows a s t.shallower :=
  { kept with depth := by simp [RunState.shallower, kept.depth, deeper] }

theorem focused (kept : Allows a (s.focused none) t) : Allows a s (t.focused s.focus) :=
  { kept with focus := rfl }

theorem popped (kept : Allows a.wide (s.pushed size) t) :
    (t.popped s.base).stack = s.stack ∧ Allows a s (t.popped s.base) := by
  have base : t.base = s.stack.size := kept.base
  have size_eq : t.stack.size = s.stack.size + size := by simpa [pushed] using kept.size
  have below : ∀ i < s.stack.size, t.stack[i]? = s.stack[i]? := by
    intro i hi
    rw [kept.cells i fun k hk _ => by simp only [pushed] at hk; omega]
    simp [pushed, Array.getElem?_append_left hi]
  have stack : (t.popped s.base).stack = s.stack := by
    rw [← shrink_eq size_eq below, ← base]
    rfl
  exact ⟨stack, { kept with
    base := rfl
    size := by rw [stack]
    cells := fun _ _ => by rw [stack] }⟩

end RunState.Allows

namespace Run

variable {d : Standard} {a b : Allowance} {r : RunSetting} {s : RunState} {α : Type}

theorem nested_keeps {act : Run α} {post : α → Prop} (hs : s.Meets d)
    (kept : ∀ t : RunState, t.Meets d → (runLaw d a).Keeps r t act fun v _ => post v) :
    (runLaw d a).Keeps r s (nested act) fun v _ => post v :=
  nested_leaving_keeps hs (kept s.deeper ⟨hs.stack, hs.focus⟩) fun _ hu kept =>
    ⟨⟨hu.stack, hu.focus⟩, kept.shallower⟩

theorem withoutFocus_keeps {act : Run α} {post : α → Prop} (hs : s.Meets d)
    (kept : ∀ t : RunState, t.Meets d → (runLaw d a).Keeps r t act fun v _ => post v) :
    (runLaw d a).Keeps r s (withoutFocus act) fun v _ => post v :=
  leaving_keeps (withoutFocus_run act r s) (kept (s.focused none) ⟨hs.stack, nofun⟩)
    fun _ hu kept => ⟨⟨hu.stack, hs.focus⟩, kept.focused⟩

theorem inFrame_keeps {act : Run α} {post : α → Prop} {size : Nat} (hs : s.Meets d)
    (kept : ∀ t : RunState, t.Meets d → (runLaw d a.wide).Keeps r t act fun v _ => post v) :
    (runLaw d a).Keeps r s (inFrame size act) fun v _ => post v := by
  have entered : (s.pushed size).Meets d := by
    refine ⟨fun v hv => ?_, hs.focus⟩
    rcases Array.mem_append.1 hv with old | new
    · exact hs.stack v old
    · rw [Array.eq_of_mem_replicate new]
      exact Value.meets_empty
  refine leaving_keeps (inFrame_run size act r s) (kept _ entered) fun t ht kept => ?_
  obtain ⟨stack, popped⟩ := kept.popped
  exact ⟨⟨fun v hv => hs.stack v (by rwa [stack] at hv), ht.focus⟩, popped⟩

theorem bindParams_keeps (function : String) (span : Span) (wide : ∀ i, a.slot i) :
    ∀ (params : List Variable) (args : List Value) (s : RunState), s.Meets d →
      (∀ v ∈ args, v.Meets d) →
      (runLaw d a).Keeps r s (bindParams function span params args) fun _ _ => True
  | [], _, _, hs, _ => Law.Keeps.pure hs trivial
  | _ :: _, [], _, hs, _ => Law.Keeps.pure hs trivial
  | p :: ps, v :: vs, s, hs, all => by
    have rest : ∀ t : RunState, t.Meets d →
        (runLaw d a).Keeps r t (do set p.slot v; bindParams function span ps vs) fun _ _ => True := by
      intro t ht
      refine Law.Keeps.bind (set_keeps ht (wide _) (all v (by simp))) fun _ u hu _ _ => ?_
      exact bindParams_keeps function span wide ps vs u hu fun w hw => all w (by simp [hw])
    unfold bindParams
    split
    · split
      · refine Law.Keeps.bind ?_ fun _ t ht _ (_ : True) => rest t ht
        exact Law.Keeps.throw hs
      · exact rest s hs
    · exact rest s hs

end Run

variable {d : Standard} {a : Allowance} {r : RunSetting} {s : RunState}

namespace PendingCall

/-- The values that a call carries meet the standard. A call that code makes itself is an update
only if the code may do that; what a callback does was never checked. -/
def Meets (d : Standard) (a : Allowance) : PendingCall → Prop
  | .registered target args _ =>
    d.mentioned target ∧ (d.isUpdating target = true → a.updates) ∧
      (d.draws target → a.draws) ∧ ∀ v ∈ args, v.Meets d
  | .item f args _ =>
    f.Meets d ∧ (d.annotated → f.isUpdating = true → a.updates) ∧ ∀ v ∈ args, v.Meets d
  | .callback f args _ => f.Meets d ∧ ∀ v ∈ args, v.Meets d

end PendingCall

/-- Calls that meet the standard leave the caller's frame alone and do what `a` allows. -/
def Caller.Keeps (d : Standard) (a : Allowance) (r : RunSetting) (call : Caller) : Prop :=
  ∀ next s, s.Meets d → next.Meets d a → (runLaw d a.still).Keeps r s (call next) fun v _ => v.Meets d

namespace Builtin

variable {call : Caller} (calls : call.Keeps d a r)

include calls

theorem invoke_keeps {f : FuncItem} (hs : s.Meets d) (hf : f.Meets d) {args : List Value}
    (all : ∀ v ∈ args, v.Meets d) (span : Span) :
    (runLaw d a).Keeps r s (call.invoke f args span) fun v _ => v.Meets d :=
  Run.keeps_mono a.still_le (calls _ s hs ⟨hf, all⟩)

theorem test_keeps {f : FuncItem} (hs : s.Meets d) (hf : f.Meets d) {v : Value} (hv : v.Meets d)
    (span : Span) : (runLaw d a).Keeps r s (test call.invoke f span v) fun _ _ => True := by
  refine Law.Keeps.bind (invoke_keeps calls hs hf (by simpa using hv) span) fun w t ht _ _ => ?_
  split
  · exact Law.Keeps.pure ht trivial
  · exact Law.Keeps.throw ht

theorem applyForEach_keeps (hs : s.Meets d) {seq f : Value} (hseq : seq.Meets d) (hf : f.Meets d)
    (span : Span) :
    (runLaw d a).Keeps r s (applyForEach call.invoke seq f span) fun v _ => v.Meets d := by
  refine Law.Keeps.bind (Law.Keeps.ofExcept hs) fun g t ht _ found => ?_
  have hg := hf.asFunc found.1
  refine Law.Keeps.bind (Law.Keeps.mapM (fun v u hu hv => ?_) seq.items t ht fun v => hseq.items)
    fun vs u hu _ hvs => Law.Keeps.pure hu (Value.meets_ofItems hvs)
  exact invoke_keeps calls hu hg (by simpa using hv) span

theorem applyFilter_keeps (hs : s.Meets d) {seq f : Value} (hseq : seq.Meets d) (hf : f.Meets d)
    (span : Span) :
    (runLaw d a).Keeps r s (applyFilter call.invoke seq f span) fun v _ => v.Meets d := by
  refine Law.Keeps.bind (Law.Keeps.ofExcept hs) fun g t ht _ found => ?_
  have hg := hf.asFunc found.1
  refine Law.Keeps.bind (Law.Keeps.filterM (fun v u hu hv => ?_) seq.items ht fun v => hseq.items)
    fun vs u hu _ hvs => Law.Keeps.pure hu (Value.meets_ofItems hvs)
  exact test_keeps calls hu hg hv span

theorem applyFoldLeft_keeps (hs : s.Meets d) {seq zero f : Value} (hseq : seq.Meets d)
    (hzero : zero.Meets d) (hf : f.Meets d) (span : Span) :
    (runLaw d a).Keeps r s (applyFoldLeft call.invoke seq zero f span) fun v _ => v.Meets d := by
  refine Law.Keeps.bind (Law.Keeps.ofExcept hs) fun g t ht _ found => ?_
  have hg := hf.asFunc found.1
  have each : ∀ acc v (u : RunState), u.Meets d → acc.Meets d → v.Meets d →
      (runLaw d a).Keeps r u (call.invoke g [acc, v] span) fun v _ => v.Meets d :=
    fun acc v u hu hacc hv => invoke_keeps calls hu hg (by simpa using ⟨hacc, hv⟩) span
  exact Law.Keeps.foldlM (fun _ _ _ _ h => h) each seq.items zero t ht hzero fun v => hseq.items

theorem apply_keeps (b : Builtin) (hs : s.Meets d) {args : List Value} (all : ∀ v ∈ args, v.Meets d)
    (updates : b.flags.upd = true → a.updates) (draws : b.flags.ndt = true → a.draws)
    (span : Span) :
    (runLaw d a).Keeps r s (b.apply call.invoke args span) fun v _ => v.Meets d := by
  unfold apply
  split
  · exact applyForEach_keeps calls hs (all _ (by simp)) (all _ (by simp)) span
  · exact applyFilter_keeps calls hs (all _ (by simp)) (all _ (by simp)) span
  · exact applyFoldLeft_keeps calls hs (all _ (by simp)) (all _ (by simp)) (all _ (by simp)) span
  · refine Law.Keeps.bind (Law.Keeps.ofExcept hs) fun g t ht _ _ => ?_
    exact Law.Keeps.pure ht (by simp only [Value.Meets])
  · refine Law.Keeps.bind (Law.Keeps.ofExcept hs) fun g t ht _ _ => ?_
    exact Law.Keeps.pure ht (Value.meets_ofName g)
  · exact Law.Keeps.pure hs (by simp only [Value.Meets])
  · refine Law.Keeps.bind (Law.Keeps.ofExcept hs) fun bound t ht _ _ => ?_
    refine Law.Keeps.bind (Run.random_keeps ht (draws rfl) bound) fun i u hu _ _ => ?_
    exact Law.Keeps.pure hu (by simp only [Value.Meets])
  · exact Law.Keeps.throw hs
  · refine Law.Keeps.bind (Run.addUpdate_keeps hs (updates rfl) _) fun _ t ht _ _ => ?_
    exact Law.Keeps.pure ht Value.meets_empty
  · exact Law.Keeps.throw hs

end Builtin

end QueryFunctions
