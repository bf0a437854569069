import Mathlib.Order.Bounds.Basic
import Mathlib.Data.List.Nodup
import Mathlib.Data.List.Perm.Subperm
import Mathlib.Data.List.Induction
import QueryFunctions.Proofs.Scope.Sound

/-! How the slots of a scope are used over time. A pinned variable lives from its declaration on,
a local until a region is closed that it was declared in, and regions are closed last in, first
out. Live variables have slots of their own, in no more room than they need, as long as no region
is closed in which a pinned variable has the slot of a local; a region that is closed then frees
the slot of the pinned variable. -/
namespace QueryFunctions

namespace Scope

inductive Use where
  | declare (name : String) (declared : Option SeqType) (pinned : Bool)
  | openRegion
  /-- Closes the region that was opened last. There is nothing to close without an open one. -/
  | closeRegion
deriving DecidableEq, Repr

/-- A scope together with what has been done to it. -/
structure History where
  scope : Scope := {}
  supply : Supply := {}
  /-- The marks of the open regions, innermost first. -/
  marks : List Nat := []
  /-- The closed regions: how many variables there were before and after each. -/
  closed : List (Nat × Nat) := []
deriving DecidableEq, Repr

namespace History

def step (h : History) : Use → History
  | .declare name declared pinned =>
    let ((_, scope), supply) := (h.scope.declare name declared pinned).run h.supply
    { h with scope := scope, supply := supply }
  | .openRegion => { h with marks := h.scope.openRegion :: h.marks }
  | .closeRegion =>
    match h.marks with
    | [] => h
    | mark :: marks =>
      { h with
        scope := h.scope.closeRegion mark
        marks := marks
        closed := (mark, h.scope.vars.length) :: h.closed }

def lives (h : History) : List (Variable × Nat) :=
  h.scope.vars.zipIdx.filter fun (v, place) =>
    v.pinned || h.closed.all fun (first, last) => place < first || last ≤ place

def live (h : History) : List Variable := h.lives.map Prod.fst

/-- The innermost region can be closed: none of its locals has the slot of a pinned variable. -/
def Closable (h : History) : Prop :=
  ∀ mark ∈ h.marks.head?, ∀ v ∈ h.scope.vars.drop mark, v.pinned = false →
    ∀ w ∈ h.scope.vars, w.pinned = true → w.slot ≠ v.slot

end History

def history (uses : List Use) : History := uses.foldl .step {}

/-- What the slots are to say of the live variables. -/
structure Allotted (uses : List Use) : Prop where
  apart : (history uses).live.Pairwise (·.slot ≠ ·.slot)
  taken : ∀ slot, (history uses).scope.Taken slot ↔ ∃ v ∈ (history uses).live, v.slot = slot
  /-- The frame has as many slots as there ever were live variables at once. -/
  frame : IsGreatest {count | ∃ earlier, earlier <+: uses ∧ (history earlier).live.length = count}
    (history uses).scope.frameSize

theorem history_append (uses : List Use) (last : Use) :
    history (uses ++ [last]) = (history uses).step last := by
  simp [history]

namespace History

variable {h : History}

theorem mem_lives {v : Variable} {place : Nat} :
    (v, place) ∈ h.lives ↔ h.scope.vars[place]? = some v ∧
      (v.pinned = true ∨ ∀ region ∈ h.closed, place < region.1 ∨ region.2 ≤ place) := by
  simp [lives, List.mem_zipIdx_iff_getElem?]

theorem mem_live_of_pinned {v : Variable} (mem : v ∈ h.scope.vars) (pinned : v.pinned = true) :
    v ∈ h.live := by
  obtain ⟨place, at_place⟩ := List.mem_iff_getElem?.1 mem
  exact List.mem_map.2 ⟨(v, place), mem_lives.2 ⟨at_place, .inl pinned⟩, rfl⟩

/-- A live variable is the last one that was given its slot, and the taken slots are those of the
live variables. -/
structure Settled (h : History) : Prop where
  past : ∀ region ∈ h.closed, region.2 ≤ h.scope.vars.length
  apart : h.lives.Pairwise (·.1.slot ≠ ·.1.slot)
  taken : ∀ slot, h.scope.Taken slot ↔ ∃ p ∈ h.lives, p.1.slot = slot
  last : ∀ p ∈ h.lives, ∀ place w, p.2 < place → h.scope.vars[place]? = some w →
    p.1.slot ≠ w.slot

theorem settled_new : Settled {} :=
  ⟨by simp, by simp [lives], by simp [lives, Taken], by simp [lives]⟩

def declared (h : History) (name : String) (type : Option SeqType) (pinned : Bool) : Variable :=
  ⟨⟨h.supply.nextVar⟩, name, type, type.getD .item, h.scope.freeSlot, pinned⟩

section

variable (name : String) (type : Option SeqType) (pinned : Bool)

theorem scope_declare : (h.step (.declare name type pinned)).scope =
    h.scope.add ⟨h.supply.nextVar⟩ name type pinned := rfl

theorem vars_declare : (h.step (.declare name type pinned)).scope.vars =
    h.scope.vars ++ [h.declared name type pinned] := rfl

theorem lives_declare (past : ∀ region ∈ h.closed, region.2 ≤ h.scope.vars.length) :
    (h.step (.declare name type pinned)).lives =
      h.lives ++ [(h.declared name type pinned, h.scope.vars.length)] := by
  have newest : (pinned || h.closed.all fun (first, last) =>
      h.scope.vars.length < first || last ≤ h.scope.vars.length) = true := by
    simp only [Bool.or_eq_true, List.all_eq_true, decide_eq_true_eq]
    exact .inr fun region mem => .inr (past region mem)
  have same : (h.step (.declare name type pinned)).closed = h.closed := rfl
  unfold lives
  rw [vars_declare, same, List.zipIdx_append, List.filter_append]
  congr 1
  simpa [declared] using newest

theorem Settled.declare (settled : h.Settled) : (h.step (.declare name type pinned)).Settled := by
  have fresh : ∀ p ∈ h.lives, p.1.slot ≠ h.scope.freeSlot := fun p mem same =>
    h.scope.not_taken_freeSlot ((settled.taken _).2 ⟨p, mem, same⟩)
  refine ⟨fun region mem => ?_, ?_, fun slot => ?_, fun p mem place w later found => ?_⟩
  · have := settled.past region mem
    rw [vars_declare, List.length_append]
    omega
  · rw [lives_declare name type pinned settled.past, List.pairwise_append]
    refine ⟨settled.apart, List.pairwise_singleton _ _, fun p mem q new => ?_⟩
    rw [List.mem_singleton.1 new]
    exact fresh p mem
  · rw [scope_declare, taken_add, settled.taken, lives_declare name type pinned settled.past]
    simp only [List.mem_append, List.mem_singleton, or_and_right, exists_or, exists_eq_left]
    exact or_congr_right eq_comm
  · rw [vars_declare] at found
    rw [lives_declare name type pinned settled.past] at mem
    have bound : place < h.scope.vars.length + 1 := by
      simpa using (List.getElem?_eq_some_iff.1 found).1
    rcases List.mem_append.1 mem with old | new
    · rcases Nat.lt_succ_iff_lt_or_eq.1 bound with lt | rfl
      · rw [List.getElem?_append_left lt] at found
        exact settled.last p old place w later found
      · obtain rfl : h.declared name type pinned = w := by simpa using found
        exact fresh p old
    · rw [List.mem_singleton.1 new] at later
      simp only at later
      omega

end

section

variable {mark : Nat} {marks : List Nat}

theorem step_closeRegion (innermost : h.marks = mark :: marks) : h.step .closeRegion =
    { h with
      scope := h.scope.closeRegion mark
      marks := marks
      closed := (mark, h.scope.vars.length) :: h.closed } := by
  simp only [step, innermost]

theorem lives_closeRegion (innermost : h.marks = mark :: marks) :
    (h.step .closeRegion).lives = h.lives.filter fun p => p.1.pinned || p.2 < mark := by
  rw [step_closeRegion innermost]
  unfold lives
  rw [List.filter_filter]
  refine List.filter_congr fun (v, place) mem => ?_
  have bound : place < h.scope.vars.length :=
    (List.getElem?_eq_some_iff.1 (List.mem_zipIdx_iff_getElem?.1 mem)).1
  have inside : ¬h.scope.vars.length ≤ place := by omega
  cases pinned : v.pinned <;> simp [pinned, inside]

theorem Settled.closeRegion (settled : h.Settled) (closable : h.Closable) :
    (h.step .closeRegion).Settled := by
  cases innermost : h.marks with
  | nil =>
    have same : h.step .closeRegion = h := by simp only [step, innermost]
    rwa [same]
  | cons mark marks =>
    have spares := closable mark (by simp [innermost])
    refine ⟨?_, ?_, fun slot => ?_, fun p mem place w later found => ?_⟩
    · rw [step_closeRegion innermost]
      simpa [Scope.closeRegion] using fun first last mem => settled.past (first, last) mem
    · rw [lives_closeRegion innermost]
      exact settled.apart.filter _
    · rw [lives_closeRegion innermost, step_closeRegion innermost, taken_closeRegion_iff,
        settled.taken]
      constructor
      · rintro ⟨⟨p, mem, rfl⟩, free⟩
        refine ⟨p, List.mem_filter.2 ⟨mem, ?_⟩, rfl⟩
        by_contra ended
        simp only [Bool.or_eq_true, decide_eq_true_eq, not_or, Bool.not_eq_true, not_lt] at ended
        obtain ⟨found, -⟩ := mem_lives.1 mem
        refine free p.1 (List.mem_iff_getElem?.2 ⟨p.2 - mark, ?_⟩) ended.1 rfl
        rw [List.getElem?_drop, Nat.add_sub_cancel' ended.2, found]
      · rintro ⟨p, mem, rfl⟩
        obtain ⟨mem, kept⟩ := List.mem_filter.1 mem
        simp only [Bool.or_eq_true, decide_eq_true_eq] at kept
        refine ⟨⟨p, mem, rfl⟩, fun v among unpinned same => ?_⟩
        obtain ⟨found, -⟩ := mem_lives.1 mem
        rcases kept with pinned | before
        · exact spares v among unpinned p.1 (List.mem_of_getElem? found) pinned same.symm
        · obtain ⟨place, at_place⟩ := List.mem_iff_getElem?.1 among
          rw [List.getElem?_drop] at at_place
          exact settled.last p mem (mark + place) v (by omega) at_place same.symm
    · rw [lives_closeRegion innermost] at mem
      rw [step_closeRegion innermost] at found
      exact settled.last p (List.mem_of_mem_filter mem) place w later found

end

theorem Settled.live_le (settled : h.Settled) : h.live.length ≤ h.scope.frameSize := by
  have distinct : (h.live.map (·.slot)).Nodup := by
    unfold live
    rw [List.map_map]
    exact List.pairwise_map.2 settled.apart
  have within : h.live.map (·.slot) ⊆ List.range h.scope.frameSize := by
    intro slot mem
    obtain ⟨v, alive, rfl⟩ := List.mem_map.1 mem
    obtain ⟨p, place, rfl⟩ := List.mem_map.1 alive
    exact List.mem_range.2 (List.getElem?_eq_some_iff.1 ((settled.taken _).2 ⟨p, place, rfl⟩)).1
  simpa using (distinct.subperm within).length_le

theorem Settled.le_live (settled : h.Settled) (full : h.scope.Full) :
    h.scope.frameSize ≤ h.live.length := by
  have within : List.range h.scope.frameSize ⊆ h.live.map (·.slot) := by
    intro slot mem
    obtain ⟨p, alive, same⟩ := (settled.taken slot).1 (full.taken (List.mem_range.1 mem))
    exact List.mem_map.2 ⟨p.1, List.mem_map_of_mem alive, same⟩
  simpa using (List.nodup_range.subperm within).length_le

end History

/-- Every region that is closed in the course of `uses` can be closed. -/
def Closes (uses : List Use) : Prop :=
  ∀ earlier, earlier ++ [.closeRegion] <+: uses → (history earlier).Closable

theorem Closes.of_prefix {uses earlier : List Use} (closes : Closes uses)
    (within : earlier <+: uses) : Closes earlier :=
  fun first ends => closes first (ends.trans within)

theorem settled_history {uses : List Use} (closes : Closes uses) : (history uses).Settled := by
  induction uses using List.reverseRecOn with
  | nil => exact History.settled_new
  | append_singleton uses last ih =>
    have settled := ih (closes.of_prefix (List.prefix_append uses [last]))
    rw [history_append]
    cases last with
    | declare name type pinned => exact settled.declare name type pinned
    | openRegion => exact ⟨settled.past, settled.apart, settled.taken, settled.last⟩
    | closeRegion => exact settled.closeRegion (closes uses List.prefix_rfl)

theorem frameSize_step_closeRegion (h : History) :
    (h.step .closeRegion).scope.frameSize = h.scope.frameSize := by
  cases innermost : h.marks with
  | nil => simp only [History.step, innermost]
  | cons mark marks =>
    rw [History.step_closeRegion innermost]
    exact frameSize_closeRegion _ _

theorem frameSize_step {h : History} (settled : h.Settled) (last : Use) :
    (h.step last).scope.frameSize = h.scope.frameSize ∨
      h.scope.frameSize ≤ (h.step last).scope.frameSize ∧
        (h.step last).live.length = (h.step last).scope.frameSize := by
  cases last with
  | declare name type pinned =>
    rw [History.scope_declare, frameSize_add]
    split
    · exact .inl rfl
    · rename_i full
      have lives := settled.le_live (Nat.le_antisymm h.scope.freeSlot_le (Nat.le_of_not_lt full))
      have one_more : (h.step (.declare name type pinned)).live.length = h.live.length + 1 := by
        unfold History.live
        rw [History.lives_declare name type pinned settled.past]
        simp
      have := settled.live_le
      exact .inr ⟨by omega, by omega⟩
  | openRegion => exact .inl rfl
  | closeRegion => exact .inl (frameSize_step_closeRegion h)

theorem frame_history {uses : List Use} (closes : Closes uses) :
    IsGreatest {count | ∃ earlier, earlier <+: uses ∧ (history earlier).live.length = count}
      (history uses).scope.frameSize := by
  induction uses using List.reverseRecOn with
  | nil =>
    refine ⟨⟨[], List.prefix_rfl, rfl⟩, ?_⟩
    rintro count ⟨earlier, within, rfl⟩
    rw [List.prefix_nil.1 within]
    exact Nat.le_refl 0
  | append_singleton uses last ih =>
    have before := closes.of_prefix (List.prefix_append uses [last])
    obtain ⟨⟨most, within, count⟩, bound⟩ := ih before
    have grows := frameSize_step (settled_history before) last
    have now := (settled_history closes).live_le
    rw [history_append] at now ⊢
    refine ⟨?_, ?_⟩
    · rcases grows with same | ⟨-, reached⟩
      · exact ⟨most, within.trans (List.prefix_append _ _), by rw [count, same]⟩
      · exact ⟨uses ++ [last], List.prefix_rfl, by rw [history_append, reached]⟩
    · rintro count ⟨earlier, within, rfl⟩
      rcases List.prefix_concat_iff.1 within with rfl | older
      · rw [history_append]
        exact now
      · have := bound ⟨earlier, older, rfl⟩
        omega

/-- Slots are allotted as they should be at every point exactly if no region is closed in which a
pinned variable has the slot of a local. -/
theorem allotted_iff (uses : List Use) :
    (∀ earlier, earlier <+: uses → Allotted earlier) ↔ Closes uses := by
  constructor
  · intro allotted earlier ends mark innermost v among unpinned w mem pinned same
    have taken := (allotted _ ends).taken w.slot
    obtain ⟨marks, marked⟩ := List.head?_eq_some_iff.1 innermost
    rw [history_append, History.step_closeRegion marked, taken_closeRegion_iff] at taken
    have alive : w ∈ ((history earlier).step .closeRegion).live := by
      refine History.mem_live_of_pinned ?_ pinned
      rw [History.step_closeRegion marked]
      exact mem
    rw [History.step_closeRegion marked] at alive
    exact (taken.2 ⟨w, alive, rfl⟩).2 v among unpinned same.symm
  · intro closes earlier within
    have settled := settled_history (closes.of_prefix within)
    refine ⟨List.pairwise_map.2 settled.apart, fun slot => ?_,
      frame_history (closes.of_prefix within)⟩
    simpa [History.live] using settled.taken slot

/-- A local ends, a pinned variable takes its slot, and the region around both is closed: the slot
is free although the pinned variable lives on, and the next local is given it. -/
theorem not_allotted :
    ¬∀ uses, Allotted uses := by
  intro allotted
  have shared := (allotted [.openRegion, .openRegion, .declare "a" none false, .closeRegion,
    .declare "p" none true, .closeRegion, .declare "b" none false]).apart
  revert shared
  decide

end Scope

end QueryFunctions
