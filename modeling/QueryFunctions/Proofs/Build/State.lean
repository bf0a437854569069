import QueryFunctions.Proofs.Build.Frames
import QueryFunctions.Proofs.Law.Contract
import QueryFunctions.Surface.Building

/-! The contract of the builder. What it has declared are drafts in scopes of their own; the frames at hand
only gain variables, and the registry only gains mentions. A name that is found in an outer frame is
captured by all frames on the way in; a function body has a frame of its own, which is gone when the body
is done. Nothing that is built meets a fault. -/
namespace QueryFunctions

namespace BuildState

def frames (s : BuildState) : List Frame := s.frame :: s.outer

structure Formed (exact : Prop) (s : BuildState) : Prop where
  frames : FramesFormed s.supply s.frames
  functions : s.registry.Draft exact s.supply

structure Grows (s t : BuildState) : Prop where
  supply : s.supply.nextVar ≤ t.supply.nextVar
  registry : s.registry.Recalls t.registry
  frames : FramesGrow s.frames t.frames
  claims : ∀ {id}, Frame.Claimed t.frames id →
    Frame.Claimed s.frames id ∨ s.supply.nextVar ≤ id.index

def place (s : BuildState) : Place := s.frame.place s.outer s.supply

/-- A draft for the place at hand. -/
def Holds (exact : Prop) (s : BuildState) (e : Expr) : Prop := e.Draft s.registry exact s.place

variable {exact : Prop} {s t u : BuildState}

namespace Grows

theorem refl (s : BuildState) : Grows s s := ⟨Nat.le_refl _, .refl _, .refl _, .inl⟩

theorem trans (first : Grows s t) (second : Grows t u) : Grows s u :=
  ⟨Nat.le_trans first.supply second.supply, first.registry.trans second.registry,
    first.frames.trans second.frames, fun claimed => (second.claims claimed).elim first.claims
      fun later => .inr (Nat.le_trans first.supply later)⟩

theorem frame (h : Grows s t) : s.frame.Grows t.frame := by
  cases h.frames with
  | cons head _ => exact head

theorem holds (h : Grows s t) {e : Expr} (he : s.Holds exact e) : t.Holds exact e :=
  he.mono h.registry (h.frame.place_le h.supply h.claims)

theorem all_hold (h : Grows s t) {es : List Expr} (hes : ∀ e ∈ es, s.Holds exact e) :
    ∀ e ∈ es, t.Holds exact e := fun e mem => h.holds (hes e mem)

end Grows

end BuildState

def buildContract (exact : Prop) : Contract BuildState where
  holds := BuildState.Formed exact
  leads := BuildState.Grows
  refl := BuildState.Grows.refl
  trans := BuildState.Grows.trans
  raises _ := True
  faults _ := False

namespace Build

variable {α β : Type} {exact : Prop} {s : BuildState}

/-- Started in `s`, the computation keeps the contract of the builder. -/
abbrev Keeps (exact : Prop) (s : BuildState) (act : Build α) (post : α → BuildState → Prop) : Prop :=
  (buildContract exact).Keeps () s (fun _ => act : Computation Unit BuildState α) post

/-- The computation makes a draft for the place at hand. -/
abbrev Makes (exact : Prop) (s : BuildState) (act : Build Expr) : Prop :=
  Keeps exact s act fun e t => t.Holds exact e

theorem run_bind (act : Build α) (next : α → Build β) (s : BuildState) :
    (act >>= next) s = match act s with
      | (.ok (.ok a), t) => next a t
      | (.ok (.error e), t) => (.ok (.error e), t)
      | (.error f, t) => (.error f, t) := by
  simp only [Bind.bind, ExceptT.bind, ExceptT.mk, StateT.bind]
  rcases act s with ⟨f | e | a, t⟩ <;> rfl

theorem run_discard (act : Build α) (s : BuildState) : Functor.discard act s = match act s with
    | (.ok (.ok _), t) => (.ok (.ok ()), t)
    | (.ok (.error e), t) => (.ok (.error e), t)
    | (.error f, t) => (.error f, t) := by
  simp only [Functor.discard, Functor.mapConst, Function.comp, ExceptT.map, ExceptT.mk, Bind.bind,
    ExceptT.bind, StateT.bind]
  rcases act s with ⟨f | e | a, t⟩ <;> rfl

theorem discarded_keeps {c : Contract BuildState} {act : Build α} {post : α → BuildState → Prop}
    (kept : c.Keeps () s (fun _ => act) post) :
    c.Keeps () s (fun _ => Functor.discard act) fun _ _ => True := by
  change c.Admits s post (act s) at kept
  change c.Admits s _ (Functor.discard act s)
  rw [run_discard]
  generalize act s = outcome at kept
  obtain ⟨f | e | a, t⟩ := outcome
  · exact kept
  · exact kept
  · exact ⟨kept.1, kept.2.1, trivial⟩

namespace Keeps

theorem pure {a : α} {post : α → BuildState → Prop} (hs : s.Formed exact) (ha : post a s) :
    Keeps exact s (pure a) post := Contract.Keeps.pure hs ha

theorem throw {e : QueryError} {post : α → BuildState → Prop} (hs : s.Formed exact) :
    Keeps exact s (throw e : Build α) post := Contract.Keeps.throw hs trivial

theorem bind {act : Build α} {next : α → Build β} {mid : α → BuildState → Prop}
    {post : β → BuildState → Prop} (first : Keeps exact s act mid)
    (second : ∀ a t, t.Formed exact → BuildState.Grows s t → mid a t → Keeps exact t (next a) post) :
    Keeps exact s (act >>= next) post :=
  Contract.Keeps.bind first second

theorem mono {act : Build α} {post post' : α → BuildState → Prop} (kept : Keeps exact s act post)
    (weaker : ∀ a t, t.Formed exact → BuildState.Grows s t → post a t → post' a t) :
    Keeps exact s act post' :=
  Contract.Keeps.mono kept weaker

theorem of_eq {act : Build α} {a : α} {t : BuildState} {post : α → BuildState → Prop}
    (run : act s = (.ok (.ok a), t)) (ht : t.Formed exact) (hst : s.Grows t) (ha : post a t) :
    Keeps exact s act post := Contract.Keeps.of_eq run ht hst ha

theorem get (hs : s.Formed exact) : Keeps exact s get fun a t => a = s ∧ t = s :=
  of_eq rfl hs (.refl s) ⟨rfl, rfl⟩

theorem ofExcept {result : Except QueryError α} (hs : s.Formed exact) :
    Keeps exact s (ofExcept result) fun a t => result = .ok a ∧ t = s := by
  cases result with
  | ok a => exact pure hs ⟨rfl, rfl⟩
  | error e => exact throw hs

theorem draw (hs : s.Formed exact) {act : StateM Supply α}
    (grows : s.supply.nextVar ≤ (act.run s.supply).2.nextVar) :
    Keeps exact s (draw act) fun a t =>
      a = (act.run s.supply).1 ∧ t = { s with supply := (act.run s.supply).2 } := by
  refine of_eq rfl ⟨hs.frames.mono grows, hs.functions.mono grows⟩ ?_ ⟨rfl, rfl⟩
  exact ⟨grows, .refl _, .refl _, .inl⟩

theorem modify {f : BuildState → BuildState} (formed : (f s).Formed exact) (grows : s.Grows (f s)) :
    Keeps exact s (modify f) fun _ t => t = f s := of_eq rfl formed grows rfl

theorem moveTo (hs : s.Formed exact) (span : Span) : Keeps exact s (moveTo span) fun _ _ => True :=
  of_eq rfl ⟨hs.frames, hs.functions⟩ ⟨Nat.le_refl _, .refl _, .refl _, .inl⟩ trivial

theorem moveBack (hs : s.Formed exact) (own : Option Span) :
    Keeps exact s (moveBack own) fun _ _ => True := by
  cases own with
  | none => exact pure hs trivial
  | some span => exact moveTo hs span

end Keeps

end Build

theorem Frame.Formed.varRef {f : Frame} {supply : Supply} (hf : f.Formed supply) {id : VarId}
    (seen : id ∈ f.visible) (span : Span) :
    ∃ ref, Expr.varRef f.scope id span = .ok (.var ref) ∧ ref.id ∈ f.visible ∧
      (ref.id, ref.slot) ∈ f.scope.layout := by
  obtain ⟨v, found⟩ := Option.isSome_iff_exists.1 (Scope.isSome_find?_iff.2 (hf.known id seen))
  refine ⟨⟨id, v.slot, v.type, span⟩, ?_, seen, (Scope.mem_layout_of_find? found).2⟩
  unfold Expr.varRef
  rw [found]

theorem Expr.id_of_varRef {scope : Scope} {id : VarId} {span : Span} {ref : VarRef}
    (made : varRef scope id span = .ok (.var ref)) : ref.id = id := by
  unfold varRef at made
  split at made <;> cases made
  rfl

namespace Build

variable {exact : Prop} {s : BuildState}

theorem run_get (s : BuildState) : (get : Build BuildState) s = (.ok (.ok s), s) := rfl

theorem reference_run (name : String) (s : BuildState) :
    reference name s = match (Frame.resolve name s.frame s.outer).run s.supply with
      | (none, supply) => (.ok (.error (.unknownVariable name s.span)), { s with supply })
      | (some (id, frame, outer), supply) =>
        ofFaulty (Expr.varRef frame.scope id s.span) { s with supply, frame, outer } := by
  have draws : draw (Frame.resolve name s.frame s.outer) s =
      (.ok (.ok ((Frame.resolve name s.frame s.outer).run s.supply).1),
        { s with supply := ((Frame.resolve name s.frame s.outer).run s.supply).2 }) := rfl
  unfold reference
  rw [run_bind, run_get]
  dsimp only
  rw [run_bind, draws]
  rcases (Frame.resolve name s.frame s.outer).run s.supply with ⟨_ | ⟨id, frame, outer⟩, supply⟩ <;> rfl

theorem reference_makes (hs : s.Formed exact) (name : String) : Makes exact s (reference name) := by
  obtain ⟨grows, resolved⟩ := Frame.resolve_formed name s.frame s.outer s.supply hs.frames
  change (buildContract exact).Admits s _ (reference name s)
  rw [reference_run]
  generalize (Frame.resolve name s.frame s.outer).run s.supply = found at grows resolved
  obtain ⟨_ | ⟨id, frame, outer⟩, supply⟩ := found
  · exact ⟨⟨hs.frames.mono grows, hs.functions.mono grows⟩, ⟨grows, .refl _, .refl _, .inl⟩, trivial⟩
  · obtain ⟨formed, grown, seen, drawn⟩ := resolved id frame outer rfl
    obtain ⟨ref, made, visible, known⟩ := (formed.each frame List.mem_cons_self).varRef seen s.span
    dsimp only
    rw [made]
    exact ⟨⟨formed, hs.functions.mono grows⟩, ⟨grows, .refl _, grown, drawn⟩, .var visible known⟩

theorem letIn_run (name : String) (value : Expr) (body : Build Expr) (s : BuildState) :
    let p := (s.frame.openLet name).run s.supply
    letIn name value body s = match body { s with supply := p.2, frame := p.1.2 } with
      | (.error f, t) => (.error f, t)
      | (.ok ended, t) =>
        (.ok (ended.map (.letIn p.1.1 (((p.1.2.scope.find? p.1.1).map (·.slot)).getD 0) value)),
          { t with frame := t.frame.closeLet s.frame.scope.openRegion }) := by
  intro p
  have opened : letIn name value body s = (attempt body >>= fun result => do
      modify fun s' => { s' with frame := s'.frame.closeLet s.frame.scope.openRegion }
      return .letIn p.1.1 (((p.1.2.scope.find? p.1.1).map (·.slot)).getD 0) value (← ofExcept result))
      { s with supply := p.2, frame := p.1.2 } := rfl
  rw [opened, run_bind]
  unfold attempt
  rcases body { s with supply := p.2, frame := p.1.2 } with ⟨f | e | e, t⟩ <;> rfl

theorem letIn_makes (hs : s.Formed exact) (name : String) {value : Expr}
    (hvalue : s.Holds exact value) {body : Build Expr}
    (hbody : ∀ t : BuildState, t.Formed exact → Makes exact t body) :
    Makes exact s (letIn name value body) := by
  let p := (s.frame.openLet name).run s.supply
  obtain ⟨opened, ext, declared, free, next⟩ :=
    Frame.openLet_formed (hs.frames.each s.frame List.mem_cons_self) name
  have le : s.supply.nextVar ≤ p.2.nextVar := Nat.le_of_lt (Nat.lt_of_lt_of_eq (Nat.lt_succ_self _) next.symm)
  let inner : BuildState := { s with supply := p.2, frame := p.1.2 }
  have fresh : ∀ x ∈ p.1.2.scope.layout, x ∈ s.frame.scope.layout ∨ s.supply.nextVar ≤ x.1.index :=
    s.frame.scope.fresh_add s.supply name none false
  have entered : inner.Formed exact :=
    ⟨hs.frames.replaced opened le rfl fresh, hs.functions.mono le⟩
  let leave (t : BuildState) : BuildState :=
    { t with frame := t.frame.closeLet s.frame.scope.openRegion }
  have left : ∀ t : BuildState, t.Formed exact → inner.Grows t →
      (leave t).Formed exact ∧ s.Grows (leave t) ∧ t.place ≤ (leave t).place.opened p.1.1 := by
    intro t ht grows
    obtain ⟨closed, grown, below⟩ := Frame.closeLet_formed grows.frame
      (ht.frames.each t.frame List.mem_cons_self) s.frame.scope.openRegion
    refine ⟨⟨ht.frames.replaced closed (Nat.le_refl _) rfl fun _ => .inl, ht.functions⟩,
      ⟨Nat.le_trans le grows.supply, grows.registry, ?_, fun claimed => ?_⟩, below t.outer⟩
    · cases grows.frames with
      | cons _ rest => exact .cons grown rest
    · have same : (leave t).frame.scope.layout = t.frame.scope.layout := rfl
      rcases grows.claims (Frame.Claimed.of_layout same claimed) with before | later
      · exact Frame.Claimed.grown fresh before
      · exact .inr (Nat.le_trans le later)
  have made := hbody inner entered
  change (buildContract exact).Admits inner _ (body inner) at made
  change (buildContract exact).Admits s _ (letIn name value body s)
  rw [letIn_run]
  obtain ⟨v, found⟩ := Option.isSome_iff_exists.1
    (Scope.isSome_find?_iff.2 (List.mem_map_of_mem declared))
  have here := (Scope.mem_layout_of_find? found).2
  have slot : (((p.1.2.scope.find? p.1.1).map (·.slot)).getD 0) = s.frame.scope.freeSlot := by
    rw [found]
    exact opened.sound.slot_eq here declared
  rw [slot]
  generalize body inner = outcome at made
  obtain ⟨f | e | e, t⟩ := outcome
  · exact made.2.elim
  · obtain ⟨ht, grown, -⟩ := left t made.1 made.2.1
    exact ⟨ht, grown, trivial⟩
  · obtain ⟨ht, grown, below⟩ := left t made.1 made.2.1
    refine ⟨ht, grown, .letIn (made.2.1.frame.extends_ _ declared) (fun spared => free ?_)
      (grown.holds hvalue) (made.2.2.mono (.refl _) below)⟩
    exact (grown.frame.spared _).1 spared

/-- A function body in a frame of its own, once its parameters are declared. -/
def within (params : List VarId) (frame : Frame) (body : Build Expr) :
    Build (List VarId × Frame × Expr) := fun s =>
  match body { s with frame, outer := s.frame :: s.outer } with
  | (.error f, t) => (.error f, t)
  | (.ok ended, t) =>
    (.ok (ended.map fun e => (params, t.frame, e)),
      { t with frame := t.outer.headD {}, outer := t.outer.tail })

theorem inFunction_eq (signature : Signature) (capturing : Bool) (body : Build Expr) :
    inFunction signature capturing body =
      (draw (paramFrame signature capturing) >>= fun p => within p.1 p.2 body) := by
  funext s
  have drawn : draw (paramFrame signature capturing) s =
    (.ok (.ok ((paramFrame signature capturing).run s.supply).1),
      { s with supply := ((paramFrame signature capturing).run s.supply).2 }) := rfl
  rw [run_bind, inFunction, run_bind, drawn]
  generalize (paramFrame signature capturing).run s.supply = p
  obtain ⟨⟨params, frame⟩, supply⟩ := p
  dsimp only [within]
  rw [run_bind]
  cases ran : body { s with supply, frame, outer := s.frame :: s.outer } with
  | mk ended t =>
    have attempted : attempt body { s with supply, frame, outer := s.frame :: s.outer } =
        (ended.map .ok, t) := by
      unfold attempt
      rw [ran]
    change (attempt body >>= _) { s with supply, frame, outer := s.frame :: s.outer } = _
    rw [run_bind, attempted]
    rcases ended with f | e | e <;> rfl

/-- A function whose frame is gone again: its parameters, its last frame and its body. -/
structure Bodied (exact : Prop) (capturing : Bool) (p : List VarId × Frame × Expr) (t : BuildState) :
    Prop where
  serves : p.2.1.scope.Serves t.supply p.1 (p.2.1.captures.map Prod.fst)
  apart : t.place.Apart p.2.1.scope
  body : p.2.2.Draft t.registry exact
    (t.place.inside p.2.1.scope p.1 (p.2.1.captures.map Prod.fst))
  joins : p.2.1.Joins t.frame
  closed : capturing = false → p.2.1.captures = []

theorem Bodied.alone {p : List VarId × Frame × Expr} {t : BuildState} (h : Bodied exact false p t) :
    p.2.1.captures = [] ∧ p.2.1.scope.Serves t.supply p.1 [] ∧
      p.2.2.Draft t.registry exact (.ofBody p.2.1.scope p.1 [] t.supply) := by
  obtain ⟨serves, -, draft, -, closed⟩ := h
  have none := closed rfl
  rw [none] at serves draft
  exact ⟨none, serves, draft.mono (.refl _) (Place.le_within False.elim)⟩

/-- The frame of a function body is gone when the body is done, and the others have only gained
variables. -/
theorem within_keeps (hs : s.Formed exact) {params : List VarId} {frame : Frame}
    (begins : frame.Begins params s.supply) (apart : ∀ f ∈ s.frames, frame.Apart f) {body : Build Expr}
    (hbody : ∀ t : BuildState, t.Formed exact → Makes exact t body) :
    Keeps exact s (within params frame body) (Bodied exact frame.capturing) := by
  let inner : BuildState := { s with frame, outer := s.frame :: s.outer }
  have entered : inner.Formed exact :=
    ⟨hs.frames.enter begins (Nat.le_refl _) apart, hs.functions⟩
  let leave (t : BuildState) : BuildState :=
    { t with frame := t.outer.headD {}, outer := t.outer.tail }
  have left : ∀ t : BuildState, t.Formed exact → inner.Grows t → (leave t).frames = t.outer ∧
      (leave t).Formed exact ∧ s.Grows (leave t) ∧ frame.Grows t.frame ∧ t.frame.Joins (leave t).frame := by
    intro t ht grows
    obtain ⟨_, _, head, rest, same⟩ := List.forall₂_cons_left_iff.1 grows.frames
    obtain ⟨rfl, rfl⟩ := List.cons.inj same
    obtain ⟨f, outer, around, others, popped⟩ := List.forall₂_cons_left_iff.1 rest
    have shown : leave t = { t with frame := f, outer } := by
      simp only [leave, popped, List.headD_cons, List.tail_cons]
    have formed := ht.frames
    -- The variables of the frame that is gone are none of the frames that remain.
    have claims : ∀ {id}, Frame.Claimed t.outer id →
        Frame.Claimed s.frames id ∨ s.supply.nextVar ≤ id.index := by
      intro id claimed
      refine (grows.claims claimed.tail).imp_left fun before => ?_
      rcases (List.exists_mem_cons_iff _ _ _).1 before with own | around
      · obtain ⟨x, known, rfl⟩ := List.mem_map.1 own
        exact absurd claimed (formed.not_claimed (List.mem_map_of_mem (head.extends_ x known)))
      · exact around
    unfold BuildState.frames at formed
    rw [popped] at formed claims
    rw [shown, popped]
    exact ⟨rfl, ⟨formed.tail, ht.functions⟩, ⟨grows.supply, grows.registry, .cons around others, claims⟩,
      head, (List.isChain_cons_cons.1 formed.joined).1⟩
  have made := hbody inner entered
  change (buildContract exact).Admits inner _ (body inner) at made
  change (buildContract exact).Admits s _ (within params frame body s)
  unfold within
  generalize body inner = outcome at made
  obtain ⟨f | e | e, t⟩ := outcome
  · exact made.2.elim
  · obtain ⟨-, ht, grown, -⟩ := left t made.1 made.2.1
    exact ⟨ht, grown, trivial⟩
  · obtain ⟨frames, ht, grown, own, joins⟩ := left t made.1 made.2.1
    have last := made.1.frames.each t.frame List.mem_cons_self
    obtain ⟨serves, le⟩ := begins.ends own last t.outer
    have around : ∀ {id}, (leave t).place.claims id ↔ Frame.Claimed t.outer id := by
      intro id
      rw [← frames]
      exact Frame.claims_place
    refine ⟨ht, grown, serves, fun id mem claimed => ?_,
      (made.2.2.mono (.refl _) le).mono (.refl _) (Place.le_within fun own => .inl (around.1 own)),
      joins, fun closed => last.closed ?_⟩
    · exact made.1.frames.not_claimed mem (around.1 claimed)
    · exact own.capturing.trans closed

theorem paramFrame_begins (signature : Signature) (capturing : Bool) (supply : Supply) :
    let p := (paramFrame signature capturing).run supply
    p.1.2.Begins p.1.1 p.2 ∧ p.1.2.capturing = capturing ∧ supply.nextVar ≤ p.2.nextVar ∧
      ∀ x ∈ p.1.2.scope.layout, supply.nextVar ≤ x.1.index := by
  have each : ∀ (params : List (String × Option SeqType)) (ids : List VarId) (frame : Frame)
      (supply : Supply), frame.Begins ids supply →
      let p := (params.foldlM (fun q param => do
        let added ← q.2.addParam param.1 param.2
        return (q.1 ++ [added.1], added.2)) (ids, frame) :
          StateM Supply (List VarId × Frame)).run supply
      p.1.2.Begins p.1.1 p.2 ∧ p.1.2.capturing = frame.capturing ∧ supply.nextVar ≤ p.2.nextVar ∧
        ∀ x ∈ p.1.2.scope.layout, x ∈ frame.scope.layout ∨ supply.nextVar ≤ x.1.index := by
    intro params
    induction params with
    | nil => exact fun _ _ _ begins => ⟨begins, rfl, Nat.le_refl _, fun _ => .inl⟩
    | cons param params ih =>
      intro ids frame supply begins
      obtain ⟨added, next⟩ := begins.addParam param.1 param.2
      obtain ⟨last, same, grows, fresh⟩ := ih _ _ _ added
      have le : supply.nextVar ≤ ((frame.addParam param.1 param.2).run supply).2.nextVar :=
        Nat.le_of_lt (Nat.lt_of_lt_of_eq (Nat.lt_succ_self _) next.symm)
      refine ⟨last, same, Nat.le_trans le grows, fun x mem => ?_⟩
      rcases fresh x mem with old | new
      · exact frame.scope.fresh_add supply param.1 param.2 true x old
      · exact .inr (Nat.le_trans le new)
  obtain ⟨begins, same, grows, fresh⟩ :=
    each signature.params [] { capturing } supply (.empty capturing supply)
  exact ⟨begins, same, grows, fun x mem => (fresh x mem).resolve_left (by simp [Scope.layout])⟩

theorem inFunction_keeps (hs : s.Formed exact) (signature : Signature) (capturing : Bool)
    {body : Build Expr} (hbody : ∀ t : BuildState, t.Formed exact → Makes exact t body) :
    Keeps exact s (inFunction signature capturing body) (Bodied exact capturing) := by
  rw [inFunction_eq]
  obtain ⟨begins, same, grows, fresh⟩ := paramFrame_begins signature capturing s.supply
  refine Keeps.bind (Keeps.draw hs grows) fun p t ht _ drawn => ?_
  obtain ⟨rfl, rfl⟩ := drawn
  have kept := within_keeps ht begins (fun f mem => hs.frames.apart_later fresh f mem) hbody
  rw [same] at kept
  exact kept

end Build

end QueryFunctions
