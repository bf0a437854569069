import QueryFunctions.Proofs.Scope.Layout
import QueryFunctions.Proofs.Standard.Copying

/-! Adoption: the variables of one scope declared anew in another. Each takes a slot that is free at
that moment and keeps it, so no two adopted variables share one. But a free slot of the target is
one that a variable of a closed region had, and the code of that region may still use it: adopted
variables keep clear of all variables of the target exactly if no slot of the target is free. -/
namespace QueryFunctions

namespace Scope

/-- All variables of the scope were drawn from the supply. -/
def FreshFor (s : Scope) (supply : Supply) : Prop :=
  ∀ p ∈ s.layout, p.1.index < supply.nextVar

section adopt

variable (target : Scope) (v : Variable) (supply : Supply)

theorem adopt_supply : ((target.adopt v).run supply).2 =
    { supply with nextVar := supply.nextVar + 1 } := rfl

theorem layout_adopt : ((target.adopt v).run supply).1.1.layout =
    target.layout ++ [(⟨supply.nextVar⟩, target.freeSlot)] := by
  change ((target.add ⟨supply.nextVar⟩ v.name v.declared true).refine _ v.type).layout = _
  rw [layout_refine, layout_add]

theorem frameSize_adopt : ((target.adopt v).run supply).1.1.frameSize =
    if target.freeSlot < target.frameSize then target.frameSize else target.frameSize + 1 :=
  frameSize_add target ⟨supply.nextVar⟩ v.name v.declared true

theorem taken_adopt (slot : Nat) : ((target.adopt v).run supply).1.1.Taken slot ↔
    target.Taken slot ∨ slot = target.freeSlot :=
  taken_add target ⟨supply.nextVar⟩ v.name v.declared true slot

theorem LaidOut.adopt (laid : target.LaidOut) : ((target.adopt v).run supply).1.1.LaidOut := by
  refine (laid.add ⟨supply.nextVar⟩ v.name v.declared true).of_layout ?_ ?_
  · rw [layout_adopt, layout_add]
  · rw [frameSize_adopt, frameSize_add]

theorem adopted_id : ((target.adopt v).run supply).1.2.id = ⟨supply.nextVar⟩ := by
  change ((((target.adopt v).run supply).1.1.find? ⟨supply.nextVar⟩).getD v).id = _
  have present : (((target.adopt v).run supply).1.1.find? ⟨supply.nextVar⟩).isSome = true := by
    rw [isSome_find?_iff, layout_adopt]
    simp
  obtain ⟨w, found⟩ := Option.isSome_iff_exists.1 present
  rw [found]
  exact (mem_layout_of_find? found).1

variable {target supply} (fresh : target.FreshFor supply)

include fresh

theorem adopted_slot : ((target.adopt v).run supply).1.2.slot = target.freeSlot := by
  change ((((target.adopt v).run supply).1.1.find? ⟨supply.nextVar⟩).getD v).slot = _
  have present : (((target.adopt v).run supply).1.1.find? ⟨supply.nextVar⟩).isSome = true := by
    rw [isSome_find?_iff, layout_adopt]
    simp
  obtain ⟨w, found⟩ := Option.isSome_iff_exists.1 present
  rw [found]
  have mem := (mem_layout_of_find? found).2
  rw [layout_adopt] at mem
  rcases List.mem_append.1 mem with old | new
  · exact absurd (fresh _ old) (Nat.lt_irrefl _)
  · simpa using new

theorem freshFor_adopt :
    ((target.adopt v).run supply).1.1.FreshFor ((target.adopt v).run supply).2 := by
  intro p hp
  rw [layout_adopt] at hp
  rw [adopt_supply]
  rcases List.mem_append.1 hp with old | new
  · exact Nat.lt_succ_of_lt (fresh p old)
  · simp [List.mem_singleton.1 new]

end adopt

/-- What has become of `target` once `vars` are adopted: `t` is `target` with the variables `adopted`,
each in a slot that was free and is so no more, and `table` leads to them. -/
structure Adoption (target : Scope) (before : Supply) (vars : List Variable) (t : Scope)
    (table : Renaming) (after : Supply) (adopted : List (VarId × Nat)) : Prop where
  length : adopted.length = vars.length
  layout : t.layout = target.layout ++ adopted
  taken : ∀ slot, t.Taken slot ↔ target.Taken slot ∨ slot ∈ adopted.map Prod.snd
  apart : ∀ slot ∈ adopted.map Prod.snd, ¬target.Taken slot
  distinct : (adopted.map Prod.snd).Nodup
  laid : target.LaidOut → t.LaidOut
  grows : before.nextVar ≤ after.nextVar
  drawn : ∀ x ∈ adopted, before.nextVar ≤ x.1.index
  known : ∀ v ∈ vars, (table.find? v.id).isSome = true
  ids : ∀ id v, table.find? id = some v → v.id ∈ adopted.map Prod.fst
  /-- The first variable takes the first slot that is free. -/
  first : vars = [] ∧ t = target ∨ target.freeSlot ∈ adopted.map Prod.snd
  slots : target.FreshFor before → t.FreshFor after ∧
    ∀ id v, table.find? id = some v → (v.id, v.slot) ∈ adopted

namespace Adoption

variable {target t : Scope} {before now : Supply} {vars : List Variable} {table : Renaming}
  {adopted : List (VarId × Nat)}

theorem start (target : Scope) (before : Supply) :
    Adoption target before [] target .empty before [] where
  length := rfl
  layout := (List.append_nil _).symm
  taken := by simp
  apart := by simp
  distinct := .nil
  laid := id
  grows := Nat.le_refl _
  drawn := by simp
  known := by simp
  ids _ _ found := by cases found
  first := .inl ⟨rfl, rfl⟩
  slots fresh := ⟨fresh, fun _ _ found => by cases found⟩

theorem adopt (h : Adoption target before vars t table now adopted) (v : Variable) :
    Adoption target before (vars ++ [v]) ((t.adopt v).run now).1.1
      (table.insert v.id ((t.adopt v).run now).1.2) ((t.adopt v).run now).2
      (adopted ++ [(⟨now.nextVar⟩, t.freeSlot)]) where
  length := by simp [h.length]
  layout := by rw [layout_adopt, h.layout, List.append_assoc]
  taken slot := by
    rw [taken_adopt, h.taken, List.map_append, List.mem_append, or_assoc]
    simp
  apart slot mem := by
    rw [List.map_append, List.mem_append] at mem
    rcases mem with old | new
    · exact h.apart slot old
    · obtain rfl : slot = t.freeSlot := by simpa using new
      exact fun taken => t.not_taken_freeSlot ((h.taken _).2 (.inl taken))
  distinct := by
    rw [List.map_append, List.nodup_append]
    refine ⟨h.distinct, by simp, fun slot old last new eq => ?_⟩
    obtain rfl : last = t.freeSlot := by simpa using new
    exact t.not_taken_freeSlot (eq ▸ (h.taken slot).2 (.inr old))
  laid target := (h.laid target).adopt t v now
  grows := Nat.le_trans h.grows (Nat.le_succ _)
  drawn x mem := by
    rcases List.mem_append.1 mem with old | new
    · exact h.drawn x old
    · rw [List.mem_singleton.1 new]
      exact h.grows
  known w hw := by
    rw [Renaming.find?_insert]
    split
    · rfl
    · rename_i apart
      rcases List.mem_append.1 hw with old | new
      · exact h.known w old
      · exact absurd (congrArg Variable.id (List.mem_singleton.1 new)) apart
  ids id w found := by
    rw [Renaming.find?_insert] at found
    split at found
    · cases found
      rw [adopted_id]
      simp
    · rw [List.map_append]
      exact List.mem_append_left _ (h.ids id w found)
  first := by
    rw [List.map_append, List.mem_append]
    rcases h.first with ⟨-, rfl⟩ | taken
    · exact .inr (.inr (List.mem_singleton.2 rfl))
    · exact .inr (.inl taken)
  slots fresh := by
    obtain ⟨fresh, slots⟩ := h.slots fresh
    refine ⟨freshFor_adopt v fresh, fun id w found => ?_⟩
    rw [Renaming.find?_insert] at found
    split at found
    · cases found
      rw [adopted_id, adopted_slot v fresh]
      simp
    · exact List.mem_append_left _ (slots id w found)

theorem foldlM (rest : List Variable) (h : Adoption target before vars t table now adopted) :
    let result := (rest.foldlM (fun (t, table) v => do
      let (t, new) ← t.adopt v
      return (t, table.insert v.id new)) (t, table) : StateM Supply (Scope × Renaming)).run now
    ∃ adopted, Adoption target before (vars ++ rest) result.1.1 result.1.2 result.2 adopted := by
  induction rest generalizing vars t table now adopted with
  | nil =>
    rw [List.append_nil]
    exact ⟨adopted, h⟩
  | cons v rest ih =>
    have all := ih (h.adopt v)
    rwa [List.append_assoc] at all

end Adoption

theorem adoptInto_adoption (s target : Scope) (supply : Supply) :
    let result := (s.adoptInto target).run supply
    ∃ adopted, Adoption target supply s.vars result.1.1 result.1.2 result.2 adopted :=
  Adoption.foldlM s.vars (.start target supply)

/-- Adopted variables keep clear of those of the target exactly if no slot of the target is free. -/
theorem Adoption.apart_iff {target t : Scope} {before after : Supply} {vars : List Variable}
    {table : Renaming} {adopted : List (VarId × Nat)}
    (h : Adoption target before vars t table after adopted) (laid : target.LaidOut) :
    (∀ slot ∈ adopted.map Prod.snd, slot ∉ target.layout.map Prod.snd) ↔
      vars = [] ∨ target.Full := by
  constructor
  · intro apart
    rcases h.first with ⟨none, -⟩ | taken
    · exact .inl none
    · refine .inr (Classical.byContradiction fun free => apart _ taken ?_)
      have lt : target.freeSlot < target.frameSize :=
        Nat.lt_of_le_of_ne target.freeSlot_le free
      obtain ⟨p, mem, eq⟩ := laid.covered _ lt
      exact List.mem_map.2 ⟨p, mem, eq⟩
  · rintro (none | full) slot mem known
    · have empty : adopted = [] := List.length_eq_zero_iff.1 (by rw [h.length, none]; rfl)
      rw [empty] at mem
      cases mem
    · obtain ⟨p, here, rfl⟩ := List.mem_map.1 known
      exact h.apart _ mem (full.taken (laid.bounded p here))

end Scope

end QueryFunctions
