import Mathlib.Data.List.Chain
import QueryFunctions.Proofs.Build.Draft
import QueryFunctions.Surface.Scoping

/-! Frames of the function bodies that are being built. What is visible in a frame has a slot there, no
let has the slot of a parameter, and a captured variable stands for one that is visible in the frame
around. -/
namespace QueryFunctions

namespace Frame

def visible (f : Frame) : List VarId := f.names.map Prod.snd

/-- The slot of a parameter: of a pinned variable that is not captured. -/
def Spared (f : Frame) (slot : Nat) : Prop :=
  ∃ v ∈ f.scope.vars, v.pinned = true ∧ v.id ∉ f.captures.map Prod.fst ∧ v.slot = slot

def Claimed (fs : List Frame) (id : VarId) : Prop := ∃ f ∈ fs, id ∈ f.scope.layout.map Prod.fst

def place (f : Frame) (around : List Frame) (supply : Supply) : Place where
  scope := f.scope
  supply
  bound id := id ∈ f.visible
  focus := True
  spared := f.Spared
  outer := Claimed around

theorem claims_place {f : Frame} {around : List Frame} {supply : Supply} {id : VarId} :
    (f.place around supply).claims id ↔ Claimed (f :: around) id := by
  unfold Place.claims place Claimed
  rw [List.exists_mem_cons_iff, or_comm]

theorem Claimed.tail {f : Frame} {fs : List Frame} {id : VarId} (claimed : Claimed fs id) :
    Claimed (f :: fs) id := List.exists_mem_cons_of_exists claimed

theorem Claimed.of_layout {f g : Frame} {fs : List Frame} {id : VarId}
    (same : g.scope.layout = f.scope.layout) (claimed : Claimed (g :: fs) id) : Claimed (f :: fs) id := by
  rcases (List.exists_mem_cons_iff _ _ _).1 claimed with own | around
  · exact ⟨f, List.mem_cons_self, same ▸ own⟩
  · exact Claimed.tail around

theorem Claimed.grown {f g : Frame} {fs : List Frame} {n : Nat}
    (fresh : ∀ x ∈ g.scope.layout, x ∈ f.scope.layout ∨ n ≤ x.1.index) {id : VarId}
    (claimed : Claimed (g :: fs) id) : Claimed (f :: fs) id ∨ n ≤ id.index := by
  rcases (List.exists_mem_cons_iff _ _ _).1 claimed with own | around
  · obtain ⟨x, known, rfl⟩ := List.mem_map.1 own
    exact (fresh x known).imp_left fun old => ⟨f, List.mem_cons_self, List.mem_map_of_mem old⟩
  · exact .inl (Claimed.tail around)

structure Formed (supply : Supply) (f : Frame) : Prop where
  sound : f.scope.Sound supply
  known : ∀ id ∈ f.visible, id ∈ f.scope.layout.map Prod.fst
  taken : ∀ slot, f.Spared slot → f.scope.Taken slot
  apart : ∀ v ∈ f.scope.vars, v.pinned = false → ¬f.Spared v.slot
  closed : f.capturing = false → f.captures = []

/-- What may have become of a frame once an expression is built in it: its scope has more variables, and
more variables are captured. -/
structure Grows (f g : Frame) : Prop where
  vars : f.scope.vars <+: g.scope.vars
  names : ∃ more, g.names = f.names ++ more ∧
    g.captures.map Prod.fst = f.captures.map Prod.fst ++ more.map Prod.snd
  capturing : g.capturing = f.capturing
  spared : ∀ slot, g.Spared slot ↔ f.Spared slot

variable {f g h : Frame} {supply supply' : Supply}

theorem Formed.mono (hf : f.Formed supply) (le : supply.nextVar ≤ supply'.nextVar) :
    f.Formed supply' := { hf with sound := hf.sound.mono le }

namespace Grows

theorem refl (f : Frame) : f.Grows f :=
  ⟨List.prefix_refl _, ⟨[], by simp⟩, rfl, fun _ => .rfl⟩

theorem trans (first : f.Grows g) (second : g.Grows h) : f.Grows h := by
  obtain ⟨more, names, captures⟩ := first.names
  obtain ⟨more', names', captures'⟩ := second.names
  refine ⟨first.vars.trans second.vars, ⟨more ++ more', ?_, ?_⟩, second.capturing.trans first.capturing,
    fun slot => (second.spared slot).trans (first.spared slot)⟩
  · rw [names', names, List.append_assoc]
  · rw [captures', captures, List.append_assoc, List.map_append]

theorem extends_ (h : f.Grows g) : g.scope.Extends f.scope := fun x mem => by
  obtain ⟨v, among, rfl⟩ := List.mem_map.1 mem
  exact List.mem_map_of_mem (h.vars.subset among)

theorem visible (h : f.Grows g) {id : VarId} (mem : id ∈ f.visible) : id ∈ g.visible := by
  obtain ⟨more, names, -⟩ := h.names
  unfold Frame.visible
  rw [names, List.map_append]
  exact List.mem_append_left _ mem

theorem place_le (h : f.Grows g) (le : supply.nextVar ≤ supply'.nextVar) {fs gs : List Frame}
    (claims : ∀ {id}, Claimed (g :: gs) id → Claimed (f :: fs) id ∨ supply.nextVar ≤ id.index) :
    f.place fs supply ≤ g.place gs supply' :=
  ⟨h.extends_, le, h.visible, id, fun spared => (h.spared _).1 spared, fun claimed =>
    (claims (claims_place.1 claimed)).imp_left claims_place.2⟩

end Grows

theorem capture_formed (hf : f.Formed supply) (capturing : f.capturing = true) (name : String)
    (outer : VarId) :
    let p := (f.capture name outer).run supply
    p.1.2.Formed p.2 ∧ f.Grows p.1.2 ∧ p.1.1 ∈ p.1.2.visible ∧ p.2.nextVar = supply.nextVar + 1 ∧
      p.1.2.captures = f.captures ++ [(p.1.1, outer)] := by
  let id : VarId := ⟨supply.nextVar⟩
  let g : Frame := { f with
    scope := f.scope.add id name none true
    names := f.names ++ [(name, id)]
    captures := f.captures ++ [(id, outer)] }
  have new : ∀ v ∈ f.scope.vars, v.id ≠ id := fun v mem same => by
    have lt := hf.sound.fresh _ (List.mem_map_of_mem mem)
    dsimp only at lt
    rw [same] at lt
    exact Nat.lt_irrefl _ lt
  have spared : ∀ slot, g.Spared slot ↔ f.Spared slot := by
    refine fun slot => ⟨fun ⟨v, mem, pinned, own, here⟩ => ?_, fun ⟨v, mem, pinned, own, here⟩ => ?_⟩
    · have old : v ∈ f.scope.vars := by
        refine (List.mem_append.1 mem).resolve_right fun last => own ?_
        rw [List.mem_singleton.1 last]
        simp [g]
      exact ⟨v, old, pinned, fun captured => own (by simp [g, captured]), here⟩
    · refine ⟨v, List.mem_append_left _ mem, pinned, ?_, here⟩
      simpa [g] using ⟨by simpa using own, new v mem⟩
  have layout := Scope.layout_add f.scope id name none true
  change g.Formed { supply with nextVar := supply.nextVar + 1 } ∧ f.Grows g ∧ id ∈ g.visible ∧ _
  refine ⟨⟨hf.sound.add name none true, fun x mem => ?_, fun slot h => ?_, fun v mem unpinned => ?_, ?_⟩,
    ⟨List.prefix_append _ _, ⟨[(name, id)], rfl, by simp [g]⟩, rfl, spared⟩, ?_, rfl, rfl⟩
  · change x ∈ (f.names ++ [(name, id)]).map Prod.snd at mem
    change x ∈ (f.scope.add id name none true).layout.map Prod.fst
    rw [layout, List.map_append]
    rw [List.map_append] at mem
    rcases List.mem_append.1 mem with old | last
    · exact List.mem_append_left _ (hf.known x old)
    · exact List.mem_append_right _ last
  · exact (Scope.taken_add _ _ _ _ _ slot).2 (.inl (hf.taken slot ((spared slot).1 h)))
  · rw [spared]
    refine hf.apart v ((List.mem_append.1 mem).resolve_right fun last => ?_) unpinned
    rw [List.mem_singleton.1 last] at unpinned
    cases unpinned
  · exact fun closed => by cases capturing.symm.trans closed
  · simp [g, Frame.visible]

theorem openLet_formed (hf : f.Formed supply) (name : String) :
    let p := (f.openLet name).run supply
    p.1.2.Formed p.2 ∧ p.1.2.scope.Extends f.scope ∧ (p.1.1, f.scope.freeSlot) ∈ p.1.2.scope.layout ∧
      ¬f.Spared f.scope.freeSlot ∧ p.2.nextVar = supply.nextVar + 1 := by
  let id : VarId := ⟨supply.nextVar⟩
  let g : Frame := { f with
    scope := f.scope.add id name none false
    names := (name, id) :: f.names }
  have spared : ∀ slot, g.Spared slot → f.Spared slot := by
    rintro slot ⟨v, mem, pinned, own, here⟩
    refine ⟨v, (List.mem_append.1 mem).resolve_right fun last => ?_, pinned, own, here⟩
    rw [List.mem_singleton.1 last] at pinned
    cases pinned
  have free : ¬f.Spared f.scope.freeSlot := fun h => f.scope.not_taken_freeSlot (hf.taken _ h)
  have layout := Scope.layout_add f.scope id name none false
  change g.Formed { supply with nextVar := supply.nextVar + 1 } ∧ g.scope.Extends f.scope ∧
    (id, f.scope.freeSlot) ∈ g.scope.layout ∧ _
  refine ⟨⟨hf.sound.add name none false, fun x mem => ?_, fun slot h => ?_, fun v mem unpinned h => ?_,
    hf.closed⟩, fun x mem => ?_, ?_, free, rfl⟩
  · change x ∈ (f.scope.add id name none false).layout.map Prod.fst
    rw [layout, List.map_append]
    rcases List.mem_cons.1 mem with rfl | old
    · exact List.mem_append_right _ List.mem_cons_self
    · exact List.mem_append_left _ (hf.known x old)
  · exact (Scope.taken_add _ _ _ _ _ slot).2 (.inl (hf.taken slot (spared slot h)))
  · rcases List.mem_append.1 mem with old | last
    · exact hf.apart v old unpinned (spared _ h)
    · rw [List.mem_singleton.1 last] at h
      exact free (spared _ h)
  · exact layout ▸ List.mem_append_left _ mem
  · exact layout ▸ List.mem_append_right _ List.mem_cons_self

/-- When the body of a let is built, the frame is one that `f` may have become, and the body stands
below the let. -/
theorem closeLet_formed {name : String} {start : Supply}
    (grows : ((f.openLet name).run start).1.2.Grows g) (hg : g.Formed supply) (mark : Nat) :
    (g.closeLet mark).Formed supply ∧ f.Grows (g.closeLet mark) ∧ ∀ around, g.place around supply ≤
      ((g.closeLet mark).place around supply).opened ((f.openLet name).run start).1.1 := by
  obtain ⟨more, names, captures⟩ := grows.names
  change g.names = (name, ⟨start.nextVar⟩) :: (f.names ++ more) at names
  have shown : (g.closeLet mark).names = f.names ++ more := congrArg List.tail names
  have spared : ∀ slot, (g.closeLet mark).Spared slot ↔ f.Spared slot := by
    refine fun slot => (grows.spared slot).trans ⟨?_, ?_⟩
    · rintro ⟨v, mem, pinned, own, here⟩
      refine ⟨v, (List.mem_append.1 mem).resolve_right fun last => ?_, pinned, own, here⟩
      rw [List.mem_singleton.1 last] at pinned
      cases pinned
    · rintro ⟨v, mem, pinned, own, here⟩
      exact ⟨v, List.mem_append_left _ mem, pinned, own, here⟩
  refine ⟨⟨hg.sound.closeRegion mark, fun x mem => hg.known x ?_, fun slot h => ?_, hg.apart, hg.closed⟩,
    ⟨(List.prefix_append _ _).trans grows.vars, ⟨more, shown, captures⟩, grows.capturing, spared⟩,
    fun around => ⟨.refl _, Nat.le_refl _, fun {x} mem => ?_, id, id, .inl⟩⟩
  · unfold visible at mem ⊢
    rw [shown] at mem
    rw [names]
    exact List.mem_cons_of_mem _ mem
  · refine Scope.taken_closeRegion (hg.taken slot h) fun v mem unpinned same => ?_
    exact hg.apart v (List.mem_of_mem_drop mem) unpinned (same ▸ h)
  · change x ∈ g.visible at mem
    change x = ⟨start.nextVar⟩ ∨ x ∈ (g.closeLet mark).visible
    unfold visible at mem ⊢
    rw [names] at mem
    rw [shown]
    exact List.mem_cons.1 mem

/-- A frame with nothing but parameters. -/
structure Begins (params : List VarId) (supply : Supply) (f : Frame) : Prop where
  serves : f.scope.Serves supply params []
  pinned : ∀ v ∈ f.scope.vars, v.pinned = true ∧ v.id ∈ params
  captures : f.captures = []
  visible : ∀ id ∈ f.visible, id ∈ params

namespace Begins

variable {params : List VarId}

theorem empty (capturing : Bool) (supply : Supply) : ({ capturing } : Frame).Begins [] supply :=
  ⟨.empty supply, by simp, rfl, by simp [Frame.visible]⟩

theorem addParam (hf : f.Begins params supply) (name : String) (type : Option SeqType) :
    let p := (f.addParam name type).run supply
    p.1.2.Begins (params ++ [p.1.1]) p.2 ∧ p.2.nextVar = supply.nextVar + 1 := by
  refine ⟨⟨hf.serves.declare name type, fun v mem => ?_, hf.captures, fun id mem => ?_⟩, rfl⟩
  · rcases List.mem_append.1 mem with old | last
    · exact ⟨(hf.pinned v old).1, List.mem_append_left _ (hf.pinned v old).2⟩
    · rw [List.mem_singleton.1 last]
      exact ⟨rfl, List.mem_append_right _ List.mem_cons_self⟩
  · rcases List.mem_cons.1 mem with rfl | old
    · exact List.mem_append_right _ List.mem_cons_self
    · exact List.mem_append_left _ (hf.visible id old)

theorem formed (hf : f.Begins params supply) : f.Formed supply where
  sound := hf.serves.sound
  known id mem := hf.serves.known id (.inl (hf.visible id mem))
  taken slot := fun ⟨v, mem, _, _, here⟩ =>
    here ▸ hf.serves.taken v.id (hf.pinned v mem).2 v.slot (List.mem_map_of_mem mem)
  apart v mem unpinned := by cases (hf.pinned v mem).1.symm.trans unpinned
  closed _ := hf.captures

theorem ends (hf : f.Begins params supply) (grows : f.Grows g) (hg : g.Formed supply')
    (around : List Frame) : g.scope.Serves supply' params (g.captures.map Prod.fst) ∧
      g.place around supply' ≤ { Place.ofBody g.scope params (g.captures.map Prod.fst) supply' with
        outer := Claimed around } := by
  obtain ⟨more, names, captures⟩ := grows.names
  rw [hf.captures, List.map_nil, List.nil_append] at captures
  have spared : ∀ id ∈ params, ∀ slot, (id, slot) ∈ g.scope.layout → g.Spared slot := by
    intro id mem slot here
    obtain ⟨x, known, rfl⟩ := List.mem_map.1 (hf.serves.known id (.inl mem))
    obtain ⟨v, among, rfl⟩ := List.mem_map.1 known
    rw [grows.spared, ← hg.sound.slot_eq (grows.extends_ _ known) here]
    exact ⟨v, among, (hf.pinned v among).1, by simp [hf.captures], rfl⟩
  refine ⟨⟨hg.sound, fun id mem => ?_, fun id mem slot here => hg.taken slot (spared id mem slot here)⟩,
    ⟨.refl _, Nat.le_refl _, fun {id} mem => ?_,
    id, fun {slot} ⟨id, mem, here⟩ => spared id mem slot here, .inl⟩⟩
  · rcases mem with param | captured
    · obtain ⟨x, known, rfl⟩ := List.mem_map.1 (hf.serves.known id (.inl param))
      exact List.mem_map_of_mem (grows.extends_ x known)
    · refine hg.known id ?_
      unfold Frame.visible
      rw [names, List.map_append]
      exact List.mem_append_right _ (captures ▸ captured)
  · change id ∈ g.names.map Prod.snd at mem
    rw [names, List.map_append] at mem
    rcases List.mem_append.1 mem with own | captured
    · exact .inl (hf.visible id own)
    · exact .inr (captures ▸ captured)

end Begins

/-- Captured variables stand for what is visible in the frame around. -/
def Joins (f g : Frame) : Prop := ∀ q ∈ f.captures, q.2 ∈ g.visible

/-- The frames have no variable in common. -/
def Apart (f g : Frame) : Prop := ∀ id ∈ f.scope.layout.map Prod.fst, id ∉ g.scope.layout.map Prod.fst

end Frame

/-- Frames of function bodies inside one another, innermost first. -/
structure FramesFormed (supply : Supply) (fs : List Frame) : Prop where
  each : ∀ f ∈ fs, f.Formed supply
  joined : fs.IsChain Frame.Joins
  apart : fs.Pairwise Frame.Apart

abbrev FramesGrow : List Frame → List Frame → Prop := List.Forall₂ Frame.Grows

namespace FramesFormed

variable {f : Frame} {fs : List Frame} {supply supply' : Supply}

theorem mono (h : FramesFormed supply fs) (le : supply.nextVar ≤ supply'.nextVar) :
    FramesFormed supply' fs := { h with each := fun f mem => (h.each f mem).mono le }

theorem tail (h : FramesFormed supply (f :: fs)) : FramesFormed supply fs :=
  ⟨fun g mem => h.each g (List.mem_cons_of_mem _ mem), h.joined.tail, (List.pairwise_cons.1 h.apart).2⟩

theorem drawn (h : FramesFormed supply fs) {id : VarId} (claimed : Frame.Claimed fs id) :
    id.index < supply.nextVar := by
  obtain ⟨f, among, mem⟩ := claimed
  obtain ⟨x, known, rfl⟩ := List.mem_map.1 mem
  exact (h.each f among).sound.fresh x known

theorem not_claimed (h : FramesFormed supply (f :: fs)) {id : VarId}
    (own : id ∈ f.scope.layout.map Prod.fst) : ¬Frame.Claimed fs id := by
  rintro ⟨g, among, mem⟩
  exact (List.pairwise_cons.1 h.apart).1 g among id own mem

theorem apart_later (h : FramesFormed supply fs) {g : Frame}
    (fresh : ∀ x ∈ g.scope.layout, supply.nextVar ≤ x.1.index) : ∀ f ∈ fs, g.Apart f := by
  intro f among id own mem
  obtain ⟨x, known, rfl⟩ := List.mem_map.1 own
  exact Nat.lt_irrefl _ (Nat.lt_of_lt_of_le (h.drawn ⟨f, among, mem⟩) (fresh x known))

theorem enter (h : FramesFormed supply fs) {g : Frame} {params : List VarId}
    (begins : g.Begins params supply') (le : supply.nextVar ≤ supply'.nextVar)
    (apart : ∀ f ∈ fs, g.Apart f) : FramesFormed supply' (g :: fs) := by
  refine ⟨fun f mem => ?_, List.isChain_cons.2 ⟨fun _ _ q mem => ?_, h.joined⟩,
    List.pairwise_cons.2 ⟨apart, h.apart⟩⟩
  · rcases List.mem_cons.1 mem with rfl | mem
    · exact begins.formed
    · exact (h.each f mem).mono le
  · rw [begins.captures] at mem
    cases mem

theorem apart_grown (h : FramesFormed supply (f :: fs)) {g : Frame}
    (fresh : ∀ x ∈ g.scope.layout, x ∈ f.scope.layout ∨ supply.nextVar ≤ x.1.index) :
    (g :: fs).Pairwise Frame.Apart := by
  refine List.pairwise_cons.2 ⟨fun next among id mem other => ?_, (List.pairwise_cons.1 h.apart).2⟩
  obtain ⟨x, known, rfl⟩ := List.mem_map.1 mem
  rcases fresh x known with old | new
  · exact h.not_claimed (List.mem_map_of_mem old) ⟨next, among, other⟩
  · exact Nat.lt_irrefl _ (Nat.lt_of_lt_of_le (h.tail.drawn ⟨next, among, other⟩) new)

theorem replaced (h : FramesFormed supply (f :: fs)) {g : Frame} (hg : g.Formed supply')
    (le : supply.nextVar ≤ supply'.nextVar) (captures : g.captures = f.captures)
    (fresh : ∀ x ∈ g.scope.layout, x ∈ f.scope.layout ∨ supply.nextVar ≤ x.1.index) :
    FramesFormed supply' (g :: fs) := by
  obtain ⟨joins, joined⟩ := List.isChain_cons.1 h.joined
  refine ⟨fun x mem => ?_, List.isChain_cons.2 ⟨fun next mem => ?_, joined⟩, h.apart_grown fresh⟩
  · rcases List.mem_cons.1 mem with rfl | mem
    · exact hg
    · exact (h.each x (List.mem_cons_of_mem _ mem)).mono le
  · unfold Frame.Joins
    rw [captures]
    exact joins next mem

end FramesFormed

namespace FramesGrow

theorem refl (fs : List Frame) : FramesGrow fs fs := List.forall₂_same.2 fun f _ => .refl f

theorem trans {fs gs hs : List Frame} (first : FramesGrow fs gs) (second : FramesGrow gs hs) :
    FramesGrow fs hs := by
  induction first generalizing hs with
  | nil => exact second
  | cons head _ ih =>
    cases second with
    | cons head' rest => exact .cons (head.trans head') (ih rest)

end FramesGrow

namespace Frame

variable {name : String} {f next : Frame} {outer : List Frame} {supply t : Supply}

theorem resolve_run_of_closed (absent : f.find? name = none) (closed : f.capturing = false) :
    (resolve name f (next :: outer)).run supply = (none, supply) := by
  unfold resolve
  rw [absent, closed]
  rfl

theorem resolve_run_of_none (absent : f.find? name = none) (capturing : f.capturing = true)
    (missed : (resolve name next outer).run supply = (none, t)) :
    (resolve name f (next :: outer)).run supply = (none, t) := by
  simp only [resolve, absent, capturing, Bool.not_true, Bool.false_eq_true, if_false,
    StateT.run_bind, missed]
  rfl

theorem resolve_run_of_some (absent : f.find? name = none) (capturing : f.capturing = true)
    {id : VarId} {g : Frame} {rest : List Frame}
    (found : (resolve name next outer).run supply = (some (id, g, rest), t)) :
    (resolve name f (next :: outer)).run supply =
      (some (((f.capture name id).run t).1.1, ((f.capture name id).run t).1.2, g :: rest),
        ((f.capture name id).run t).2) := by
  simp only [resolve, absent, capturing, Bool.not_true, Bool.false_eq_true, if_false,
    StateT.run_bind, found]
  rfl

theorem mem_visible_of_find? {id : VarId} (found : f.find? name = some id) : id ∈ f.visible := by
  obtain ⟨pair, here, rfl⟩ := Option.map_eq_some_iff.1 found
  exact List.mem_map_of_mem (List.mem_of_find?_eq_some here)

theorem captured_formed (formed : FramesFormed supply (f :: next :: outer))
    (capturing : f.capturing = true) (name : String) {id : VarId} {g : Frame} {rest : List Frame}
    (le : supply.nextVar ≤ t.nextVar) (around : FramesFormed t (g :: rest))
    (grown : FramesGrow (next :: outer) (g :: rest)) (seen : id ∈ g.visible)
    (drawn : ∀ {id}, Claimed (g :: rest) id → Claimed (next :: outer) id ∨ supply.nextVar ≤ id.index) :
    let p := (f.capture name id).run t
    t.nextVar ≤ p.2.nextVar ∧ FramesFormed p.2 (p.1.2 :: g :: rest) ∧
      FramesGrow (f :: next :: outer) (p.1.2 :: g :: rest) ∧ p.1.1 ∈ p.1.2.visible ∧
      ∀ {id}, Claimed (p.1.2 :: g :: rest) id →
        Claimed (f :: next :: outer) id ∨ supply.nextVar ≤ id.index := by
  intro p
  have head : f.Formed t := (formed.each f List.mem_cons_self).mono le
  have fresh : ∀ x ∈ p.1.2.scope.layout, x ∈ f.scope.layout ∨ t.nextVar ≤ x.1.index :=
    f.scope.fresh_add t name none true
  obtain ⟨captured, grows, visible, counted, captures⟩ := capture_formed head capturing name id
  change p.2.nextVar = _ at counted
  refine ⟨by omega, ⟨fun h mem => ?_, List.isChain_cons_cons.2 ⟨fun q mem => ?_, around.joined⟩,
    List.pairwise_cons.2 ⟨fun h among x mem other => ?_, around.apart⟩⟩, .cons grows grown, visible,
    fun {x} claimed => ?_⟩
  · rcases List.mem_cons.1 mem with rfl | mem
    · exact captured
    · exact (around.each h mem).mono (by omega)
  · rw [captures] at mem
    rcases List.mem_append.1 mem with old | new
    · cases grown with
      | cons frame _ => exact frame.visible ((List.isChain_cons_cons.1 formed.joined).1 q old)
    · rw [List.mem_singleton.1 new]
      exact seen
  · obtain ⟨y, known, rfl⟩ := List.mem_map.1 mem
    rcases fresh y known with old | new
    · rcases drawn ⟨h, among, other⟩ with before | later
      · exact formed.not_claimed (List.mem_map_of_mem old) before
      · have lt := (formed.each f List.mem_cons_self).sound.fresh y old
        omega
    · have lt := around.drawn ⟨h, among, other⟩
      omega
  · rcases (List.exists_mem_cons_iff _ _ _).1 claimed with own | beyond
    · obtain ⟨y, known, rfl⟩ := List.mem_map.1 own
      exact (fresh y known).imp (fun old => ⟨f, List.mem_cons_self, List.mem_map_of_mem old⟩) le.trans
    · exact (drawn beyond).imp_left Claimed.tail

/-- Where a name is found it becomes visible in the innermost frame, and the frames stay as they were
but for the variables that they capture. -/
theorem resolve_formed (name : String) (f : Frame) (outer : List Frame) (supply : Supply)
    (formed : FramesFormed supply (f :: outer)) :
    let p := (resolve name f outer).run supply
    supply.nextVar ≤ p.2.nextVar ∧ ∀ id g rest, p.1 = some (id, g, rest) →
      FramesFormed p.2 (g :: rest) ∧ FramesGrow (f :: outer) (g :: rest) ∧ id ∈ g.visible ∧
        ∀ {x}, Claimed (g :: rest) x → Claimed (f :: outer) x ∨ supply.nextVar ≤ x.index := by
  have found_here : ∀ id, f.find? name = some id → ∀ id' g rest,
      some (id, f, outer) = some (id', g, rest) →
      FramesFormed supply (g :: rest) ∧ FramesGrow (f :: outer) (g :: rest) ∧ id' ∈ g.visible ∧
        ∀ {x}, Claimed (g :: rest) x → Claimed (f :: outer) x ∨ supply.nextVar ≤ x.index := by
    rintro id found _ _ _ ⟨⟩
    exact ⟨formed, .refl _, mem_visible_of_find? found, .inl⟩
  induction outer generalizing f with
  | nil =>
    refine ⟨Nat.le_refl _, fun id g rest found => ?_⟩
    change (f.find? name).map (fun id => (id, f, [])) = some (id, g, rest) at found
    obtain ⟨own, here, eq⟩ := Option.map_eq_some_iff.1 found
    exact found_here own here id g rest (congrArg some eq)
  | cons next outer ih =>
    cases present : f.find? name with
    | some id =>
      unfold resolve
      rw [present]
      exact ⟨Nat.le_refl _, fun id' g rest found => found_here id present id' g rest found⟩
    | none =>
      cases capturing : f.capturing with
      | false =>
        rw [resolve_run_of_closed present capturing]
        exact ⟨Nat.le_refl _, fun _ _ _ found => by cases found⟩
      | true =>
        have around := formed.tail
        obtain ⟨grows, resolved⟩ := ih next around fun id found _ _ _ eq => by
          cases eq
          exact ⟨around, .refl _, mem_visible_of_find? found, .inl⟩
        cases inner : (resolve name next outer).run supply with
        | mk result t =>
          rw [inner] at grows resolved
          cases result with
          | none =>
            rw [resolve_run_of_none present capturing inner]
            exact ⟨grows, fun _ _ _ found => by cases found⟩
          | some found =>
            obtain ⟨outerId, g, rest⟩ := found
            rw [resolve_run_of_some present capturing inner]
            obtain ⟨rest_formed, rest_grows, seen, drawn⟩ := resolved outerId g rest rfl
            obtain ⟨counted, captured⟩ :=
              captured_formed formed capturing name grows rest_formed rest_grows seen drawn
            refine ⟨Nat.le_trans grows counted, fun id' g' rest' eq => ?_⟩
            cases eq
            exact captured

end Frame

end QueryFunctions
