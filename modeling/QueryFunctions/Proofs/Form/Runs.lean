import QueryFunctions.Proofs.Form.Items
import QueryFunctions.Proofs.Form.Rewriting
import QueryFunctions.Proofs.Form.State
import QueryFunctions.Proofs.Run.Brackets
import QueryFunctions.Run.Evaluation

/-! The contract of a run: the frame at hand has all slots that code may use, all values on the stack are
well formed, and cells that are frozen keep what they hold. Frozen are the frames of all callers and,
while the body of a function is run, the slots of its parameters. -/
namespace QueryFunctions

open Contract

/-- The frame at hand. -/
structure Ground where
  base : Nat
  size : Nat
  /-- Cells of the stack that nothing may be written to. -/
  frozen : Nat → Prop
  /-- What they hold. -/
  cells : Nat → Option Value

namespace RunState

structure Formed (w : World) (g : Ground) (s : RunState) : Prop where
  base : s.base = g.base
  fits : g.base + g.size ≤ s.stack.size
  stack : ∀ v ∈ s.stack, v.Formed w
  focus : ∀ v, s.focus = some v → v.Formed w
  frozen : ∀ i, g.frozen i → s.stack[i]? = g.cells i

end RunState

def runContract (w : World) (g : Ground) : Contract RunState where
  holds := RunState.Formed w g
  leads _ _ := True
  refl _ := trivial
  trans _ _ := trivial
  raises := w.error
  faults := w.faults

namespace Ground

/-- More cells are frozen as they are in `s`. -/
def freezing (g : Ground) (s : RunState) (more : Nat → Prop) : Ground where
  base := g.base
  size := g.size
  frozen i := g.frozen i ∨ more i
  cells i := s.stack[i]?

def above (s : RunState) (size : Nat) : Ground where
  base := s.stack.size
  size
  frozen i := i < s.stack.size
  cells i := s.stack[i]?

end Ground

variable {w : World} {g : Ground} {r : RunSetting} {s : RunState} {α β : Type}

theorem Contract.Keeps.freezing {act : Run α} {post : α → RunState → Prop} (hs : s.Formed w g)
    (more : Nat → Prop)
    (kept : s.Formed w (g.freezing s more) → (runContract w (g.freezing s more)).Keeps r s act post) :
    (runContract w g).Keeps r s act post := by
  have thaw : ∀ {t : RunState}, t.Formed w (g.freezing s more) → t.Formed w g := fun ht =>
    { ht with frozen := fun i frozen => (ht.frozen i (.inl frozen)).trans (hs.frozen i frozen) }
  have made := kept { hs with frozen := fun _ _ => rfl }
  unfold Keeps at made ⊢
  generalize act r s = outcome at made ⊢
  obtain ⟨f | e | a, t⟩ := outcome
  · exact made
  · exact ⟨thaw made.1, made.2⟩
  · exact ⟨thaw made.1, made.2⟩

/-- A bracket: the state is changed for the computation between, and changed back after it. -/
theorem Contract.Keeps.leaving {g' : Ground} {act inner : Run α} {leave : RunState → RunState}
    {t : RunState} {post : α → Prop} (run : act r s = Run.leaving leave (inner r t))
    (kept : (runContract w g').Keeps r t inner fun a _ => post a)
    (back : ∀ u, u.Formed w g' → (leave u).Formed w g) :
    (runContract w g).Keeps r s act fun a _ => post a := by
  unfold Keeps at kept ⊢
  rw [run]
  generalize inner r t = outcome at kept
  obtain ⟨f | e | a, u⟩ := outcome
  · exact kept
  · exact ⟨back u kept.1, trivial, kept.2.2⟩
  · exact ⟨back u kept.1, trivial, kept.2.2⟩

namespace Run

theorem get_forms (hs : s.Formed w g) {slot : Nat} (inside : slot < g.size) :
    (runContract w g).Keeps r s (get slot) fun v _ => v.Formed w := by
  have bound : s.base + slot < s.stack.size := by
    have := hs.fits
    rw [hs.base]
    omega
  refine Keeps.bind (Keeps.get hs) fun _ t ht _ same => ?_
  obtain ⟨rfl, rfl⟩ := same
  rw [Array.getElem?_eq_getElem bound]
  exact Keeps.pure ht (ht.stack _ (Array.getElem_mem bound))

theorem set_forms (hs : s.Formed w g) {slot : Nat} {v : Value} (inside : slot < g.size)
    (free : ¬g.frozen (g.base + slot)) (hv : v.Formed w) :
    (runContract w g).Keeps r s (set slot v) fun _ _ => True := by
  have bound : s.base + slot < s.stack.size := by
    have := hs.fits
    rw [hs.base]
    omega
  have run : set slot v r s = (if s.base + slot < s.stack.size then
      (modify fun s => { s with stack := s.stack.setIfInBounds (s.base + slot) v } : Run Unit)
    else fault (.slotOutsideFrame slot)) r s := rfl
  rw [if_pos bound] at run
  refine Keeps.of_eq (t := { s with stack := s.stack.setIfInBounds (s.base + slot) v }) (run.trans rfl)
    ⟨hs.base, ?_, fun x mem => ?_, hs.focus, fun i frozen => ?_⟩ trivial trivial
  · rw [Array.size_setIfInBounds]
    exact hs.fits
  · rcases Array.mem_or_eq_of_mem_setIfInBounds mem with old | rfl
    · exact hs.stack x old
    · exact hv
  · have apart : s.base + slot ≠ i := by
      rw [hs.base]
      exact fun same => free (same ▸ frozen)
    exact (Array.getElem?_setIfInBounds_ne apart).trans (hs.frozen i frozen)

theorem focus_forms (hs : s.Formed w g) (span : Span) :
    (runContract w g).Keeps r s (focus span) fun v _ => v.Formed w := by
  refine Keeps.bind (Keeps.get hs) fun _ t ht _ same => ?_
  obtain ⟨rfl, rfl⟩ := same
  cases focused : t.focus with
  | none => exact Keeps.throw ht (w.common _ rfl)
  | some v => exact Keeps.pure ht (ht.focus v focused)

theorem checkInterrupt_forms (hs : s.Formed w g) :
    (runContract w g).Keeps r s checkInterrupt fun _ _ => True := by
  have now : (runContract w g).Keeps r s nextMoment fun _ _ => True :=
    Keeps.of_eq rfl ⟨hs.base, hs.fits, hs.stack, hs.focus, hs.frozen⟩ trivial trivial
  refine now.bind fun moment t ht _ _ => ?_
  split
  · exact Keeps.throw ht (w.common _ rfl)
  · exact Keeps.pure ht trivial

theorem draw_forms (hs : s.Formed w g) {act : Supplied α} {post : α → Prop}
    (given : Gives w.faults s.supply act fun a _ => post a) :
    (runContract w g).Keeps r s (draw act) fun a _ => post a := by
  unfold Gives at given
  cases drawn : act s.supply with
  | error f =>
    rw [drawn] at given
    exact Keeps.of_fault (by simp only [draw, drawn]) given
  | ok x =>
    rw [drawn] at given
    exact Keeps.of_eq (t := { s with supply := x.2 }) (by simp only [draw, drawn])
      ⟨hs.base, hs.fits, hs.stack, hs.focus, hs.frozen⟩ trivial given.2

theorem nested_forms {act : Run α} {post : α → Prop} (hs : s.Formed w g)
    (kept : ∀ t : RunState, t.Formed w g → (runContract w g).Keeps r t act fun a _ => post a) :
    (runContract w g).Keeps r s (nested act) fun a _ => post a := by
  have run := nested_run act r s
  cases full : s.overflow? r.options with
  | some e =>
    obtain ⟨depth, rfl⟩ := RunState.exists_of_overflow? full
    rw [full] at run
    exact Keeps.after run trivial (Keeps.throw hs (w.common _ rfl))
  | none =>
    rw [full] at run
    exact Keeps.leaving run (kept s.deeper ⟨hs.base, hs.fits, hs.stack, hs.focus, hs.frozen⟩)
      fun u hu => ⟨hu.base, hu.fits, hu.stack, hu.focus, hu.frozen⟩

theorem withoutFocus_forms {act : Run α} {post : α → Prop} (hs : s.Formed w g)
    (kept : ∀ t : RunState, t.Formed w g → (runContract w g).Keeps r t act fun a _ => post a) :
    (runContract w g).Keeps r s (withoutFocus act) fun a _ => post a :=
  Keeps.leaving (withoutFocus_run act r s)
    (kept (s.focused none) ⟨hs.base, hs.fits, hs.stack, nofun, hs.frozen⟩)
    fun _ hu => ⟨hu.base, hu.fits, hu.stack, hs.focus, hu.frozen⟩

theorem inFrame_forms {act : Run α} {post : α → Prop} {size : Nat} (hs : s.Formed w g)
    (kept : ∀ t : RunState, t.Formed w (.above s size) →
      (runContract w (.above s size)).Keeps r t act fun a _ => post a) :
    (runContract w g).Keeps r s (inFrame size act) fun a _ => post a := by
  have entered : (s.pushed size).Formed w (.above s size) := by
    refine ⟨rfl, by simp [RunState.pushed, Ground.above], fun v mem => ?_, hs.focus, fun i below => ?_⟩
    · rcases Array.mem_append.1 mem with old | new
      · exact hs.stack v old
      · rw [Array.eq_of_mem_replicate new]
        exact Value.formed_empty
    · exact Array.getElem?_append_left below
  refine Keeps.leaving (inFrame_run size act r s) (kept _ entered) fun u hu => ?_
  have fits : s.stack.size + size ≤ u.stack.size := hu.fits
  have stack : u.stack.shrink u.base = s.stack := by
    rw [show u.base = s.stack.size from hu.base]
    exact RunState.shrink_eq (t := u) (n := u.stack.size - s.stack.size) (by omega) hu.frozen
  refine ⟨hs.base, ?_, ?_, hu.focus, ?_⟩
  · change _ ≤ (u.stack.shrink u.base).size
    rw [stack]
    exact hs.fits
  · change ∀ v ∈ u.stack.shrink u.base, _
    rw [stack]
    exact hs.stack
  · change ∀ i, g.frozen i → (u.stack.shrink u.base)[i]? = g.cells i
    rw [stack]
    exact hs.frozen

end Run

namespace PendingCall

def Formed (w : World) : PendingCall → Prop
  | .registered target args _ => w.calls target args.length ∧ ∀ v ∈ args, v.Formed w
  | .item f args _ => f.Formed w ∧ ∀ v ∈ args, v.Formed w
  | .callback f args _ => f.Formed w ∧ ∀ v ∈ args, v.Formed w

end PendingCall

def CallerForms (w : World) (r : RunSetting) (call : Caller) : Prop :=
  ∀ (g : Ground) (next : PendingCall) (s : RunState), s.Formed w g → next.Formed w →
    (runContract w g).Keeps r s (call next) fun v _ => v.Formed w

namespace Builtin

variable {call : Caller} (calls : CallerForms w r call)

include calls

theorem test_forms {f : FuncItem} (hs : s.Formed w g) (hf : f.Formed w) {v : Value}
    (hv : v.Formed w) (span : Span) :
    (runContract w g).Keeps r s (test call.invoke f span v) fun _ _ => True := by
  refine Keeps.bind (calls g (.callback f [v] span) s hs ⟨hf, by simpa using hv⟩) fun x t ht _ _ => ?_
  split
  · exact Keeps.pure ht trivial
  · exact Keeps.throw ht (w.common _ rfl)

theorem applyForEach_forms (hs : s.Formed w g) {seq f : Value} (hseq : seq.Formed w)
    (hf : f.Formed w) (span : Span) :
    (runContract w g).Keeps r s (applyForEach call.invoke seq f span) fun v _ => v.Formed w := by
  refine Keeps.bind (Keeps.ofExcept hs fun e failed =>
    w.common e (QueryError.asFunc_isResolution failed)) fun h t ht _ found => ?_
  have hh := hf.asFunc found.1
  refine Keeps.bind (Keeps.mapM (fun v u hu hv => ?_) seq.items t ht fun v => hseq.items)
    fun vs u hu _ hvs => Keeps.pure hu (Value.formed_ofItems hvs)
  exact calls g (.callback h [v] span) u hu ⟨hh, by simpa using hv⟩

theorem applyFilter_forms (hs : s.Formed w g) {seq f : Value} (hseq : seq.Formed w)
    (hf : f.Formed w) (span : Span) :
    (runContract w g).Keeps r s (applyFilter call.invoke seq f span) fun v _ => v.Formed w := by
  refine Keeps.bind (Keeps.ofExcept hs fun e failed =>
    w.common e (QueryError.asFunc_isResolution failed)) fun h t ht _ found => ?_
  have hh := hf.asFunc found.1
  refine Keeps.bind (Keeps.filterM (fun v u hu hv => ?_) seq.items ht fun v => hseq.items)
    fun vs u hu _ hvs => Keeps.pure hu (Value.formed_ofItems hvs)
  exact test_forms calls hu hh hv span

theorem applyFoldLeft_forms (hs : s.Formed w g) {seq zero f : Value} (hseq : seq.Formed w)
    (hzero : zero.Formed w) (hf : f.Formed w) (span : Span) :
    (runContract w g).Keeps r s (applyFoldLeft call.invoke seq zero f span) fun v _ =>
      v.Formed w := by
  refine Keeps.bind (Keeps.ofExcept hs fun e failed =>
    w.common e (QueryError.asFunc_isResolution failed)) fun h t ht _ found => ?_
  have hh := hf.asFunc found.1
  refine Keeps.foldlM (fun acc v u hu hacc hv => ?_) seq.items zero t ht hzero fun v => hseq.items
  exact calls g (.callback h [acc, v] span) u hu ⟨hh, by simpa using ⟨hacc, hv⟩⟩

theorem apply_forms (b : Builtin) (hs : s.Formed w g) {args : List Value}
    (all : ∀ v ∈ args, v.Formed w) (span : Span) :
    (runContract w g).Keeps r s (b.apply call.invoke args span) fun v _ => v.Formed w := by
  have asFunc : ∀ v : Value, (runContract w g).Keeps r s (ofExcept (v.asFunc span) : Run FuncItem)
      fun f t => v.asFunc span = .ok f ∧ t = s := fun v =>
    Keeps.ofExcept hs fun e failed => w.common e (QueryError.asFunc_isResolution failed)
  unfold apply
  split
  · exact applyForEach_forms calls hs (all _ (by simp)) (all _ (by simp)) span
  · exact applyFilter_forms calls hs (all _ (by simp)) (all _ (by simp)) span
  · exact applyFoldLeft_forms calls hs (all _ (by simp)) (all _ (by simp)) (all _ (by simp)) span
  · exact Keeps.bind (asFunc _) fun f t ht _ _ => Keeps.pure ht .int
  · exact Keeps.bind (asFunc _) fun f t ht _ _ => Keeps.pure ht (Value.formed_ofName f)
  · exact Keeps.pure hs .int
  · refine Keeps.bind (Keeps.ofExcept hs fun e failed =>
      w.common e (QueryError.asInt_isResolution failed)) fun bound t ht _ _ => ?_
    refine Keeps.skip ?_ fun _ _ hu _ => Keeps.pure hu .int
    exact Keeps.of_eq (t := { t with random := nextRandom t.random }) rfl
      ⟨ht.base, ht.fits, ht.stack, ht.focus, ht.frozen⟩ trivial trivial
  · exact Keeps.throw hs (w.common _ rfl)
  · refine Keeps.skip ?_ fun _ _ hu _ => Keeps.pure hu Value.formed_empty
    exact Keeps.of_eq (t := { s with updates := s.updates ++ [_] }) rfl
      ⟨hs.base, hs.fits, hs.stack, hs.focus, hs.frozen⟩ trivial trivial
  · exact Keeps.throw hs (w.common _ rfl)

end Builtin

end QueryFunctions
