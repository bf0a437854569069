import QueryFunctions.Scope.Renaming
import Mathlib.Data.List.Basic

/-! Which variable has which slot. A variable keeps its slot for good, also when its region is closed and
the slot is marked free, and it keeps its name and the type that it was declared with while the scope
grows. -/
namespace QueryFunctions

namespace Scope

/-- The variables with their slots, in order of declaration. -/
def layout (s : Scope) : List (VarId × Nat) := s.vars.map fun v => (v.id, v.slot)

def Taken (s : Scope) (slot : Nat) : Prop := s.slots[slot]? = some true

/-- Variables have slots of the frame, and each slot of the frame belongs to a variable. -/
structure LaidOut (s : Scope) : Prop where
  bounded : ∀ p ∈ s.layout, p.2 < s.frameSize
  covered : ∀ slot < s.frameSize, ∃ p ∈ s.layout, p.2 = slot

/-- No slot of the frame is free. -/
def Full (s : Scope) : Prop := s.freeSlot = s.frameSize

theorem freeSlot_le (s : Scope) : s.freeSlot ≤ s.frameSize := List.idxOf_le_length

theorem not_taken_freeSlot (s : Scope) : ¬s.Taken s.freeSlot := by
  intro taken
  obtain ⟨lt, value⟩ := List.getElem?_eq_some_iff.1 taken
  have free : s.slots[s.freeSlot] = false := List.getElem_idxOf lt
  rw [free] at value
  cases value

theorem Full.taken {s : Scope} (full : s.Full) {slot : Nat} (lt : slot < s.frameSize) :
    s.Taken slot := by
  have absent : false ∉ s.slots := fun mem =>
    Nat.ne_of_lt (List.idxOf_lt_length_of_mem mem) full
  refine List.getElem?_eq_some_iff.2 ⟨lt, ?_⟩
  have present := List.getElem_mem lt
  cases h : s.slots[slot] with
  | true => rfl
  | false => exact absurd (h ▸ present) absent

theorem isSome_find?_iff {s : Scope} {id : VarId} :
    (s.find? id).isSome = true ↔ id ∈ s.layout.map Prod.fst := by
  simp [find?, layout]

theorem isSome_find?_of_mem {s : Scope} {v : Variable} (mem : v ∈ s.vars) :
    (s.find? v.id).isSome = true := isSome_find?_iff.2 (by simpa [layout] using ⟨v, mem, rfl⟩)

theorem mem_layout_of_find? {s : Scope} {id : VarId} {v : Variable} (found : s.find? id = some v) :
    v.id = id ∧ (id, v.slot) ∈ s.layout := by
  have same : v.id = id := by simpa using List.find?_some found
  refine ⟨same, List.mem_map.2 ⟨v, List.mem_of_find?_eq_some found, ?_⟩⟩
  rw [same]

theorem layout_update (s : Scope) (id : VarId) {f : Variable → Variable}
    (keeps : ∀ v, (f v).id = v.id ∧ (f v).slot = v.slot) : (s.update id f).layout = s.layout := by
  unfold update layout
  apply List.ext_getElem?
  intro i
  simp only [List.getElem?_map, List.getElem?_modify, Option.map_eq_map, Option.map_map]
  cases s.vars[i]? with
  | none => rfl
  | some v =>
    simp only [Option.map_some, Function.comp]
    split
    · rw [(keeps v).1, (keeps v).2]
    · rfl

theorem layout_refine (s : Scope) (id : VarId) (type : SeqType) :
    (s.refine id type).layout = s.layout := by
  refine layout_update s id fun v => ?_
  split <;> exact ⟨rfl, rfl⟩

theorem layout_setDeclared (s : Scope) (id : VarId) (declared : Option SeqType) :
    (s.setDeclared id declared).layout = s.layout := layout_update s id fun _ => ⟨rfl, rfl⟩

theorem layout_rename (s : Scope) (id : VarId) (name : String) :
    (s.rename id name).layout = s.layout := layout_update s id fun _ => ⟨rfl, rfl⟩

section

variable (s : Scope) (id : VarId) (name : String) (declared : Option SeqType) (pinned : Bool)

theorem layout_add : (s.add id name declared pinned).layout = s.layout ++ [(id, s.freeSlot)] := by
  simp [add, layout]

theorem frameSize_add : (s.add id name declared pinned).frameSize =
    if s.freeSlot < s.frameSize then s.frameSize else s.frameSize + 1 :=
  takeSlot_length s.slots s.freeSlot

theorem taken_add (slot : Nat) :
    (s.add id name declared pinned).Taken slot ↔ s.Taken slot ∨ slot = s.freeSlot := by
  have bound : s.freeSlot ≤ s.slots.length := s.freeSlot_le
  unfold Taken add takeSlot
  split
  · rename_i lt
    by_cases same : s.freeSlot = slot
    · simp [same ▸ lt, same]
    · simp [same, Ne.symm same]
  · have last : s.freeSlot = s.slots.length := by omega
    rw [List.getElem?_append]
    split
    · rename_i lt
      have apart : slot ≠ s.freeSlot := by omega
      simp [apart]
    · rename_i ge
      rw [List.getElem?_eq_none (by omega : s.slots.length ≤ slot)]
      by_cases same : slot = s.freeSlot
      · simp [same, last]
      · have beyond : slot - s.slots.length ≠ 0 := by omega
        simp [same, beyond]

end

/-- A declaration grows the frame exactly if the frame is full. -/
theorem LaidOut.add {s : Scope} (laid : s.LaidOut) (id : VarId) (name : String)
    (declared : Option SeqType) (pinned : Bool) : (s.add id name declared pinned).LaidOut := by
  have le := s.freeSlot_le
  constructor
  · intro p hp
    rw [layout_add] at hp
    rw [frameSize_add]
    rcases List.mem_append.1 hp with old | new
    · have := laid.bounded p old
      split <;> omega
    · rw [List.mem_singleton.1 new]
      split <;> simp only <;> omega
  · intro slot lt
    rw [frameSize_add] at lt
    rw [layout_add]
    by_cases same : slot = s.freeSlot
    · exact ⟨(id, s.freeSlot), by simp, same.symm⟩
    · obtain ⟨p, hp, eq⟩ := laid.covered slot (by split at lt <;> omega)
      exact ⟨p, List.mem_append_left _ hp, eq⟩

theorem LaidOut.of_layout {s t : Scope} (laid : s.LaidOut) (layout : t.layout = s.layout)
    (size : t.frameSize = s.frameSize) : t.LaidOut :=
  ⟨by rw [layout, size]; exact laid.bounded, by rw [layout, size]; exact laid.covered⟩

theorem laidOut_empty : LaidOut {} := ⟨by simp [layout], by simp [frameSize]⟩

theorem find?_update (s : Scope) (id : VarId) {f : Variable → Variable} (same : ∀ v, (f v).id = v.id)
    (other : VarId) : (s.update id f).find? other =
      if other = id then (s.find? other).map f else s.find? other := by
  unfold update find?
  dsimp only
  induction s.vars with
  | nil => simp
  | cons v vs ih =>
    rw [List.findIdx_cons]
    by_cases here : v.id = id
    · by_cases asked : id = other
      · simp [here, same, asked]
      · simp [here, same, asked, Ne.symm asked]
    · rw [beq_false_of_ne here, cond_false, List.modify_succ_cons]
      by_cases found : v.id = other
      · have apart : other ≠ id := fun eq => here (found.trans eq)
        simp [found, apart]
      · simpa [found] using ih

/-- Every variable of `s` is one of `t`, with the same name and declared type. -/
def Retains (t s : Scope) : Prop :=
  ∀ id v, s.find? id = some v →
    ∃ w, t.find? id = some w ∧ w.name = v.name ∧ w.declared = v.declared

namespace Retains

variable {s t u : Scope}

theorem refl (s : Scope) : s.Retains s := fun _ v found => ⟨v, found, rfl, rfl⟩

theorem trans (second : u.Retains t) (first : t.Retains s) : u.Retains s := by
  intro id v found
  obtain ⟨w, there, name, declared⟩ := first id v found
  obtain ⟨x, last, name', declared'⟩ := second id w there
  exact ⟨x, last, name'.trans name, declared'.trans declared⟩

end Retains

theorem retains_add (s : Scope) (id : VarId) (name : String) (declared : Option SeqType)
    (pinned : Bool) : (s.add id name declared pinned).Retains s := by
  intro other v found
  refine ⟨v, ?_, rfl, rfl⟩
  unfold find? at found
  unfold find? add
  rw [List.find?_append, found]
  rfl

theorem retains_refine (s : Scope) (id : VarId) (type : SeqType) : (s.refine id type).Retains s := by
  intro other v found
  unfold refine
  rw [find?_update s id (fun v => by split <;> rfl), found]
  split
  · refine ⟨_, rfl, ?_⟩
    dsimp only
    split <;> exact ⟨rfl, rfl⟩
  · exact ⟨v, rfl, rfl, rfl⟩

theorem adoptInto_keeps (Holds : Scope → Renaming → Supply → Prop)
    (step : ∀ t table now v, Holds t table now → Holds ((adopt t v).run now).1.1
      (table.insert v.id ((adopt t v).run now).1.2) ((adopt t v).run now).2)
    (callee target : Scope) (supply : Supply) (start : Holds target .empty supply) :
    let result := (callee.adoptInto target).run supply
    Holds result.1.1 result.1.2 result.2 := by
  unfold adoptInto
  generalize callee.vars = vars
  generalize Renaming.empty = table at start ⊢
  induction vars generalizing target table supply with
  | nil => exact start
  | cons v vars ih => exact ih _ _ _ (step target table supply v start)

theorem retains_adoptInto (callee target : Scope) (supply : Supply) :
    ((callee.adoptInto target).run supply).1.1.Retains target :=
  adoptInto_keeps (fun t _ _ => t.Retains target)
    (fun t _ _ v kept => ((retains_refine _ _ _).trans (retains_add t _ v.name v.declared true)).trans kept)
    callee target supply (.refl target)

def labels (s : Scope) (ids : List VarId) : List (String × Option SeqType) :=
  ids.filterMap fun id => (s.find? id).map fun v => (v.name, v.declared)

theorem labels_cons {s : Scope} {id : VarId} {v : Variable} (found : s.find? id = some v)
    (ids : List VarId) : s.labels (id :: ids) = (v.name, v.declared) :: s.labels ids := by
  unfold labels
  rw [List.filterMap_cons, found]
  rfl

theorem length_labels {s : Scope} {ids : List VarId}
    (known : ∀ id ∈ ids, (s.find? id).isSome = true) : (s.labels ids).length = ids.length := by
  induction ids with
  | nil => rfl
  | cons id ids ih =>
    obtain ⟨v, found⟩ := Option.isSome_iff_exists.1 (known id (by simp))
    rw [labels_cons found, List.length_cons, ih fun x mem => known x (by simp [mem]), List.length_cons]

theorem map_snd_labels {s : Scope} {ids : List VarId}
    (known : ∀ id ∈ ids, (s.find? id).isSome = true) :
    (s.labels ids).map Prod.snd = ids.map fun id => (s.find? id).bind (·.declared) := by
  induction ids with
  | nil => rfl
  | cons id ids ih =>
    obtain ⟨v, found⟩ := Option.isSome_iff_exists.1 (known id (by simp))
    rw [labels_cons found, List.map_cons, ih fun x mem => known x (by simp [mem]), List.map_cons, found]
    rfl

theorem Retains.labels_eq {s t : Scope} (h : t.Retains s) {ids : List VarId}
    (known : ∀ id ∈ ids, (s.find? id).isSome = true) : t.labels ids = s.labels ids := by
  refine List.filterMap_congr fun id mem => ?_
  obtain ⟨v, found⟩ := Option.isSome_iff_exists.1 (known id mem)
  obtain ⟨w, there, name, declared⟩ := h id v found
  simp [found, there, name, declared]

theorem Retains.known {s t : Scope} (h : t.Retains s) {ids : List VarId}
    (known : ∀ id ∈ ids, (s.find? id).isSome = true) : ∀ id ∈ ids, (t.find? id).isSome = true := by
  intro id mem
  obtain ⟨v, found⟩ := Option.isSome_iff_exists.1 (known id mem)
  obtain ⟨w, there, -⟩ := h id v found
  exact Option.isSome_iff_exists.2 ⟨w, there⟩

def relabel (s : Scope) (id : VarId) (v : Variable) : Scope :=
  (s.setDeclared id v.declared).rename id v.name

theorem find?_relabel (s : Scope) (id : VarId) (v : Variable) (other : VarId) :
    (s.relabel id v).find? other =
      if other = id then (s.find? other).map fun w =>
        { w with name := v.name, declared := v.declared, type := v.declared.getD .item }
      else s.find? other := by
  have declared := find?_update s id
    (f := fun w => { w with declared := v.declared, type := v.declared.getD .item }) (fun _ => rfl) other
  have renamed := find?_update (s.setDeclared id v.declared) id
    (f := fun w => { w with name := v.name }) (fun _ => rfl) other
  refine renamed.trans ?_
  unfold setDeclared
  rw [declared]
  split
  · rw [Option.map_map]
    rfl
  · rfl

theorem labels_relabel_of_notMem {s : Scope} {id : VarId} {v : Variable} {ids : List VarId}
    (apart : id ∉ ids) : (s.relabel id v).labels ids = s.labels ids := by
  refine List.filterMap_congr fun other mem => ?_
  have ne : other ≠ id := fun same => apart (same ▸ mem)
  rw [find?_relabel, if_neg ne]

theorem labels_relabelAll (ids : List VarId) (vars : List Variable) (s : Scope) (distinct : ids.Nodup)
    (known : ∀ id ∈ ids, (s.find? id).isSome = true) :
    let t := (ids.zip vars).foldl (fun s (id, v) => s.relabel id v) s
    (∀ other, other ∉ ids → t.find? other = s.find? other) ∧
      (∀ id ∈ ids, (t.find? id).isSome = true) ∧
      t.labels ids = (vars.take ids.length).map (fun v => (v.name, v.declared)) ++
        (s.labels ids).drop vars.length := by
  induction ids generalizing vars s with
  | nil => simp [labels]
  | cons id ids ih =>
    cases vars with
    | nil => exact ⟨fun _ _ => rfl, known, rfl⟩
    | cons v vars =>
      obtain ⟨apart, distinct⟩ := List.nodup_cons.1 distinct
      obtain ⟨w, found⟩ := Option.isSome_iff_exists.1 (known id (by simp))
      have others : ∀ other, other ≠ id → (s.relabel id v).find? other = s.find? other :=
        fun other ne => by rw [find?_relabel, if_neg ne]
      obtain ⟨outside, inside, labels⟩ := ih vars (s.relabel id v) distinct fun x mem => by
        rw [others x fun same => apart (same ▸ mem)]
        exact known x (by simp [mem])
      have first := outside id apart
      rw [find?_relabel, if_pos rfl, found] at first
      refine ⟨fun other ne => ?_, fun x mem => ?_, ?_⟩
      · rw [List.mem_cons, not_or] at ne
        exact (outside other ne.2).trans (others other ne.1)
      · rcases List.mem_cons.1 mem with rfl | mem
        · exact Option.isSome_iff_exists.2 ⟨_, first⟩
        · exact inside x mem
      · rw [List.zip_cons_cons, List.foldl_cons, labels_cons first, labels, labels_relabel_of_notMem apart,
          labels_cons found]
        rfl

end Scope

end QueryFunctions
