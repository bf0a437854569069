import Mathlib.Data.List.Nodup
import QueryFunctions.Proofs.Scope.Adoption

/-! Sound scopes: every variable has a slot of the frame and an identity of its own. Scopes stay sound
while variables are declared, regions closed and other scopes adopted, and a copy of a sound scope
renames each variable to one in the same slot. -/
namespace QueryFunctions

namespace Scope

/-- Variables with their slots are added and never taken away. -/
def Extends (t s : Scope) : Prop := ∀ p ∈ s.layout, p ∈ t.layout

theorem Extends.refl (s : Scope) : s.Extends s := fun _ mem => mem

theorem Extends.trans {s t u : Scope} (second : u.Extends t) (first : t.Extends s) : u.Extends s :=
  fun p mem => second p (first p mem)

/-- A scope whose variables were drawn from the supply, each once. -/
structure Sound (s : Scope) (supply : Supply) : Prop where
  laid : s.LaidOut
  fresh : s.FreshFor supply
  distinct : (s.layout.map Prod.fst).Nodup

namespace Sound

variable {s t : Scope} {supply supply' : Supply}

theorem mono (h : s.Sound supply) (le : supply.nextVar ≤ supply'.nextVar) : s.Sound supply' :=
  ⟨h.laid, fun p mem => Nat.lt_of_lt_of_le (h.fresh p mem) le, h.distinct⟩

theorem empty (supply : Supply) : ({} : Scope).Sound supply :=
  ⟨laidOut_empty, by simp [FreshFor, layout], by simp [layout]⟩

theorem of_layout (h : s.Sound supply) (layout : t.layout = s.layout)
    (size : t.frameSize = s.frameSize) : t.Sound supply :=
  ⟨h.laid.of_layout layout size, by unfold FreshFor; rw [layout]; exact h.fresh,
    by rw [layout]; exact h.distinct⟩

theorem slot_eq (h : s.Sound supply) {id : VarId} {a b : Nat} (ha : (id, a) ∈ s.layout)
    (hb : (id, b) ∈ s.layout) : a = b :=
  congrArg Prod.snd (List.inj_on_of_nodup_map h.distinct ha hb rfl)

theorem closeRegion (h : s.Sound supply) (mark : Nat) : (s.closeRegion mark).Sound supply :=
  h.of_layout rfl (frameSize_closeRegion s mark)

theorem add (h : s.Sound supply) (name : String) (declared : Option SeqType) (pinned : Bool) :
    (s.add ⟨supply.nextVar⟩ name declared pinned).Sound
      { supply with nextVar := supply.nextVar + 1 } := by
  refine ⟨h.laid.add _ _ _ _, fun p mem => ?_, ?_⟩
  · rw [layout_add] at mem
    rcases List.mem_append.1 mem with old | new
    · exact Nat.lt_succ_of_lt (h.fresh p old)
    · rw [List.mem_singleton.1 new]
      exact Nat.lt_succ_self _
  · rw [layout_add, List.map_append, List.nodup_append]
    refine ⟨h.distinct, by simp, fun id old other new eq => ?_⟩
    obtain ⟨p, mem, rfl⟩ := List.mem_map.1 old
    obtain rfl : other = ⟨supply.nextVar⟩ := by simpa using new
    have lt := h.fresh p mem
    rw [eq] at lt
    exact Nat.lt_irrefl _ lt

theorem adopt (h : s.Sound supply) (v : Variable) :
    ((s.adopt v).run supply).1.1.Sound ((s.adopt v).run supply).2 := by
  refine (h.add v.name v.declared true).of_layout ?_ ?_
  · rw [layout_adopt, layout_add]
  · rw [frameSize_adopt, frameSize_add]

theorem adoptInto (h : t.Sound supply) (s : Scope) :
    ((s.adoptInto t).run supply).1.1.Sound ((s.adoptInto t).run supply).2 :=
  adoptInto_keeps (fun t _ now => t.Sound now) (fun _ _ _ v sound => sound.adopt v) s t supply h

end Sound

theorem taken_closeRegion_iff {s : Scope} {mark slot : Nat} :
    (s.closeRegion mark).Taken slot ↔
      s.Taken slot ∧ ∀ v ∈ s.vars.drop mark, v.pinned = false → v.slot ≠ slot := by
  have locals : (∀ v ∈ s.vars.drop mark, v.pinned = false → v.slot ≠ slot) ↔
      ∀ v ∈ (s.vars.drop mark).filter (!·.pinned), v.slot ≠ slot := by
    simp only [List.mem_filter, Bool.not_eq_true', and_imp]
  rw [locals]
  unfold Taken closeRegion
  generalize (s.vars.drop mark).filter (!·.pinned) = ended
  generalize s.slots = slots
  induction ended generalizing slots with
  | nil => simp
  | cons v ended ih =>
    refine (ih (slots.set v.slot false)).trans ?_
    by_cases same : v.slot = slot
    · simp [List.getElem?_set, same]
    · simp [same]

theorem taken_closeRegion {s : Scope} {mark slot : Nat} (taken : s.Taken slot)
    (apart : ∀ v ∈ s.vars.drop mark, v.pinned = false → v.slot ≠ slot) :
    (s.closeRegion mark).Taken slot := taken_closeRegion_iff.2 ⟨taken, apart⟩

theorem copied_vars (vars : List Variable) (supply : Supply) :
    let result := (vars.mapM fun v => return { v with id := ← Supply.freshVar } :
      StateM Supply (List Variable)).run supply
    result.1 = vars.mapIdx (fun i v => { v with id := ⟨supply.nextVar + i⟩ }) ∧
      result.2.nextVar = supply.nextVar + vars.length := by
  induction vars generalizing supply with
  | nil => exact ⟨rfl, rfl⟩
  | cons v vars ih =>
    rw [List.mapM_cons]
    obtain ⟨same, grown⟩ := ih { supply with nextVar := supply.nextVar + 1 }
    let first : Variable := { v with id := ⟨supply.nextVar⟩ }
    refine ⟨(congrArg (first :: ·) same).trans ?_, grown.trans ?_⟩
    · simp only [first, List.mapIdx_cons, Nat.add_zero, Nat.add_assoc, Nat.add_comm 1]
    · simp only [List.length_cons]
      omega

/-- What a copied scope and its table have to do with the scope: the frame is the same, and the table
leads each variable, and nothing else, to one in the same slot. -/
structure Copied (s t : Scope) (table : Renaming) : Prop where
  slots : t.slots = s.slots
  known : ∀ p ∈ s.layout, (table.find? p.1).isSome = true
  placed : ∀ id v, table.find? id = some v → (id, v.slot) ∈ s.layout ∧ (v.id, v.slot) ∈ t.layout

theorem layout_copy (s : Scope) (start : Supply) :
    let t := (s.copy.run start).1.1
    t.layout.map Prod.snd = s.layout.map Prod.snd ∧
      t.layout.map Prod.fst = (List.range s.vars.length).map fun i => ⟨start.nextVar + i⟩ := by
  intro t
  have vars : t.vars = s.vars.mapIdx fun i v => { v with id := ⟨start.nextVar + i⟩ } :=
    (copied_vars s.vars start).1
  have layout : t.layout = s.vars.mapIdx fun i v => (⟨start.nextVar + i⟩, v.slot) := by
    unfold Scope.layout
    rw [vars]
    apply List.ext_getElem <;> simp
  refine ⟨?_, ?_⟩
  · rw [layout]
    apply List.ext_getElem <;> simp [Scope.layout]
  · rw [layout]
    apply List.ext_getElem <;> simp

theorem fresh_add (s : Scope) (start : Supply) (name : String) (declared : Option SeqType)
    (pinned : Bool) : ∀ x ∈ (s.add ⟨start.nextVar⟩ name declared pinned).layout,
      x ∈ s.layout ∨ start.nextVar ≤ x.1.index := by
  intro x mem
  rw [layout_add] at mem
  refine (List.mem_append.1 mem).imp_right fun last => ?_
  obtain rfl := List.mem_singleton.1 last
  exact Nat.le_refl _

theorem fresh_copy (s : Scope) (start : Supply) :
    ∀ id ∈ (s.copy.run start).1.1.layout.map Prod.fst, start.nextVar ≤ id.index := by
  intro id mem
  rw [(s.layout_copy start).2] at mem
  obtain ⟨i, -, rfl⟩ := List.mem_map.1 mem
  exact Nat.le_add_right _ _

theorem Sound.copy {s : Scope} {supply : Supply} (h : s.Sound supply) (start : Supply) :
    let result := s.copy.run start
    result.1.1.Sound result.2 ∧ start.nextVar ≤ result.2.nextVar ∧
      s.Copied result.1.1 result.1.2 := by
  obtain ⟨same, grown⟩ := copied_vars s.vars start
  have size : s.vars.length = ((s.vars.mapM fun v => return { v with id := ← Supply.freshVar } :
      StateM Supply (List Variable)).run start).1.length := by rw [same, List.length_mapIdx]
  have table (id : VarId) := copy_table s.vars .empty _ id size
  let t := (s.copy.run start).1.1
  obtain ⟨slots, ids⟩ := s.layout_copy start
  refine ⟨⟨⟨fun p mem => ?_, fun slot lt => ?_⟩, fun p mem => ?_, ?_⟩, ?_, rfl, fun p mem => ?_,
    fun id v found => ?_⟩
  · obtain ⟨q, known, eq⟩ := List.mem_map.1 (slots ▸ List.mem_map_of_mem mem : p.2 ∈ s.layout.map _)
    exact eq ▸ h.laid.bounded q known
  · obtain ⟨q, known, rfl⟩ := h.laid.covered slot lt
    obtain ⟨p, mem, eq⟩ := List.mem_map.1 (slots ▸ List.mem_map_of_mem known : q.2 ∈ t.layout.map _)
    exact ⟨p, mem, eq⟩
  · have among : p.1 ∈ t.layout.map Prod.fst := List.mem_map_of_mem mem
    rw [ids] at among
    obtain ⟨i, lt, eq⟩ := List.mem_map.1 among
    have lt := List.mem_range.1 lt
    rw [← eq]
    change start.nextVar + i < _
    rw [show (s.copy.run start).2.nextVar = start.nextVar + s.vars.length from grown]
    omega
  · change (t.layout.map Prod.fst).Nodup
    rw [ids]
    refine List.Nodup.map (fun i j eq => ?_) List.nodup_range
    simpa using eq
  · exact Nat.le_trans (Nat.le_add_right _ _) (Nat.le_of_eq grown.symm)
  · obtain ⟨v, known, rfl⟩ := List.mem_map.1 mem
    exact (table v.id).2 (.inl ⟨v, known, rfl⟩)
  · rcases (table id).1 v found with ⟨w, pair, rfl⟩ | none
    · have copied : v ∈ t.vars := (List.of_mem_zip pair).2
      have slot : v.slot = w.slot := by
        rw [same] at pair
        obtain ⟨i, lt, eq⟩ := List.getElem_of_mem pair
        rw [List.getElem_zip, List.getElem_mapIdx] at eq
        obtain ⟨old, new⟩ := Prod.mk.inj eq
        rw [← new, ← old]
      rw [slot]
      refine ⟨List.mem_map.2 ⟨w, (List.of_mem_zip pair).1, rfl⟩, ?_⟩
      exact slot ▸ List.mem_map.2 ⟨v, copied, rfl⟩
    · cases none

theorem Sound.find?_of_mem {s : Scope} {supply : Supply} (h : s.Sound supply) {v : Variable}
    (mem : v ∈ s.vars) : s.find? v.id = some v := by
  obtain ⟨w, found⟩ := Option.isSome_iff_exists.1 (isSome_find?_of_mem mem)
  have distinct := h.distinct
  rw [layout, List.map_map] at distinct
  have same := (mem_layout_of_find? found).1
  rw [found, List.inj_on_of_nodup_map distinct (List.mem_of_find?_eq_some found) mem same]

theorem Sound.find?_copy {s : Scope} {supply start : Supply} (h : s.Sound supply) {id : VarId}
    {v : Variable} (found : (s.copy.run start).1.2.find? id = some v) :
    ∃ w, s.find? id = some w ∧ (s.copy.run start).1.1.find? v.id = some v ∧ v.name = w.name ∧
      v.declared = w.declared := by
  obtain ⟨same, -⟩ := copied_vars s.vars start
  have size : s.vars.length = ((s.vars.mapM fun v => return { v with id := ← Supply.freshVar } :
      StateM Supply (List Variable)).run start).1.length := by rw [same, List.length_mapIdx]
  obtain ⟨w, pair, rfl⟩ | none := (copy_table s.vars .empty _ id size).1 v found
  · obtain ⟨old, new⟩ := List.of_mem_zip pair
    refine ⟨w, h.find?_of_mem old, (h.copy start).1.find?_of_mem new, ?_⟩
    rw [same] at pair
    obtain ⟨i, lt, eq⟩ := List.getElem_of_mem pair
    rw [List.getElem_zip, List.getElem_mapIdx] at eq
    obtain ⟨rfl, rfl⟩ := Prod.mk.inj eq
    exact ⟨rfl, rfl⟩
  · cases none

end Scope

end QueryFunctions
