import QueryFunctions.Proofs.Build.Lexical
import QueryFunctions.Proofs.Build.Surface

/-! Calls of the builder. Whatever becomes of the body of a let or of a function, the frames are
afterwards those before the call, with the same binders; a closure supplies what it has captured from
the frame around. -/
namespace QueryFunctions

namespace BuildState

def inLet (s : BuildState) (name : String) : BuildState :=
  let p := (s.frame.openLet name).run s.supply
  { s with supply := p.2, frame := p.1.2 }

def paramsOf (s : BuildState) (signature : Signature) (capturing : Bool) : List VarId :=
  ((Build.paramFrame signature capturing).run s.supply).1.1

def inFunction (s : BuildState) (signature : Signature) (capturing : Bool) : BuildState :=
  let p := (Build.paramFrame signature capturing).run s.supply
  { s with supply := p.2, frame := p.1.2, outer := s.frame :: s.outer }

def binders (s : BuildState) (signature : Signature) (capturing : Bool) : Binders :=
  ((signature.params.map Prod.fst).zip (s.paramsOf signature capturing)).reverse

/-- Frames that are well formed, and in which names denote what lexical scoping tells. -/
structure Tidy (s : BuildState) : Prop where
  formed : FramesFormed s.supply s.frames
  tidy : Frame.Tidy s.frames

/-- What a call of the builder leaves of the frames, whether it fails or not: all of them, with the same
lets and parameters and what they have captured. -/
structure Retains (s t : BuildState) : Prop where
  supply : s.supply.nextVar ≤ t.supply.nextVar
  grows : FramesGrow s.frames t.frames
  frames : List.Forall₂ Frame.Retains s.frames t.frames

theorem Retains.refl (s : BuildState) : s.Retains s :=
  ⟨Nat.le_refl _, .refl _, Frame.Retains.all_refl _⟩

theorem Retains.trans {s t u : BuildState} (first : s.Retains t) (second : t.Retains u) : s.Retains u :=
  ⟨Nat.le_trans first.supply second.supply, first.grows.trans second.grows,
    Frame.Retains.all_trans first.frames second.frames⟩

theorem Tidy.empty : ({} : BuildState).Tidy where
  formed := ⟨fun f mem => List.mem_singleton.1 mem ▸ (Frame.Begins.empty false {}).formed, .singleton _,
    List.pairwise_singleton _ _⟩
  tidy := by
    have linked : ({} : Frame).Linked [] [] [] :=
      ⟨rfl, rfl, List.nodup_nil, List.nodup_nil, fun l mem => by cases mem⟩
    exact .cons linked .nil

theorem surroundings_frames (s : BuildState) : Frame.surroundings s.frames =
    s.frame.binders :: if s.frame.capturing then Frame.surroundings s.outer else [] := rfl

section

variable {s t : BuildState} {name : String} {signature : Signature} {capturing : Bool}

theorem Tidy.frame_formed (hs : s.Tidy) : s.frame.Formed s.supply :=
  hs.formed.each s.frame List.mem_cons_self

theorem Tidy.inLet (hs : s.Tidy) (name : String) : (s.inLet name).Tidy ∧
    (s.inLet name).frame.binders = (name, ⟨s.supply.nextVar⟩) :: s.frame.binders := by
  obtain ⟨opened, -, -, -, next⟩ := Frame.openLet_formed hs.frame_formed name
  have le : s.supply.nextVar ≤ (s.inLet name).supply.nextVar :=
    Nat.le_of_lt (Nat.lt_of_lt_of_eq (Nat.lt_succ_self _) next.symm)
  cases hs.tidy with
  | cons linked around =>
    have inner : (s.inLet name).frame.Linked s.outer _ _ := linked.bind hs.frame_formed rfl rfl rfl
    refine ⟨⟨hs.formed.replaced opened le rfl (s.frame.scope.fresh_add s.supply name none false),
      .cons inner around⟩, ?_⟩
    rw [inner.binders_eq, linked.binders_eq]

theorem Tidy.closeLet (hs : s.Tidy) (ht : t.Tidy) (retains : (s.inLet name).Retains t) :
    let left : BuildState := { t with frame := t.frame.closeLet s.frame.scope.openRegion }
    left.Tidy ∧ s.Retains left := by
  intro left
  obtain ⟨inner, binders⟩ := hs.inLet name
  obtain ⟨grows, around⟩ := List.forall₂_cons.1 retains.grows
  obtain ⟨kept, others⟩ := List.forall₂_cons.1 retains.frames
  obtain ⟨closed, grown, -⟩ := Frame.closeLet_formed grows ht.frame_formed s.frame.scope.openRegion
  obtain ⟨-, -, -, -, next⟩ := Frame.openLet_formed hs.frame_formed name
  have le : s.supply.nextVar ≤ (s.inLet name).supply.nextVar :=
    Nat.le_of_lt (Nat.lt_of_lt_of_eq (Nat.lt_succ_self _) next.symm)
  cases ht.tidy with
  | cons linked beyond =>
    have own := linked.binders_eq.symm.trans (kept.binders.trans binders)
    subst own
    have ended := linked.closeLet s.frame.scope.openRegion
    refine ⟨⟨ht.formed.replaced closed (Nat.le_refl _) rfl fun _ => .inl, .cons ended beyond⟩,
      ⟨Nat.le_trans le retains.supply, .cons grown around, .cons ?_ others⟩⟩
    exact ⟨ended.binders_eq, kept.captures, kept.capturing⟩

theorem paramFrame_linked (signature : Signature) (capturing : Bool) (supply : Supply)
    (around : List Frame) :
    let p := (Build.paramFrame signature capturing).run supply
    p.1.2.Linked around ((signature.params.map Prod.fst).zip p.1.1).reverse [] := by
  have each : ∀ (params : List (String × Option SeqType)) (ids : List VarId) (frame : Frame)
      (supply : Supply) (own : Binders), frame.Begins ids supply → frame.Linked around own [] →
      ∃ more, let p := (params.foldlM (fun q param => do
          let added ← q.2.addParam param.1 param.2
          return (q.1 ++ [added.1], added.2)) (ids, frame) :
            StateM Supply (List VarId × Frame)).run supply
        p.1.1 = ids ++ more ∧
          p.1.2.Linked around (((params.map Prod.fst).zip more).reverse ++ own) [] := by
    intro params
    induction params with
    | nil => exact fun ids _ _ own _ linked => ⟨[], (List.append_nil ids).symm, linked⟩
    | cons param params ih =>
      intro ids frame supply own begins linked
      have names : ((frame.addParam param.1 param.2).run supply).1.2.names =
          (param.1, ⟨supply.nextVar⟩) :: frame.names := rfl
      obtain ⟨more, drawn, last⟩ := ih _ _ _ _ (begins.addParam param.1 param.2).1
        (linked.bind begins.formed names rfl rfl)
      refine ⟨⟨supply.nextVar⟩ :: more, drawn.trans (List.append_assoc _ _ _), ?_⟩
      rw [List.map_cons, List.zip_cons_cons, List.reverse_cons, List.append_assoc]
      exact last
  have start : ({ capturing } : Frame).Linked around [] [] :=
    ⟨rfl, rfl, List.nodup_nil, List.nodup_nil, fun l mem => by cases mem⟩
  obtain ⟨more, drawn, linked⟩ := each signature.params [] _ supply [] (.empty capturing supply) start
  intro p
  rw [List.append_nil] at linked
  have params : p.1.1 = more := drawn
  rw [params]
  exact linked

theorem Tidy.inFunction (hs : s.Tidy) (signature : Signature) (capturing : Bool) :
    (s.inFunction signature capturing).Tidy ∧
      (s.inFunction signature capturing).frame.binders = s.binders signature capturing ∧
      (s.inFunction signature capturing).frame.capturing = capturing ∧
      s.supply.nextVar ≤ (s.inFunction signature capturing).supply.nextVar := by
  obtain ⟨begins, same, le, fresh⟩ := Build.paramFrame_begins signature capturing s.supply
  have linked : (s.inFunction signature capturing).frame.Linked s.frames _ [] :=
    paramFrame_linked signature capturing s.supply s.frames
  exact ⟨⟨hs.formed.enter begins le (hs.formed.apart_later fresh), .cons linked hs.tidy⟩,
    linked.binders_eq, same, le⟩

def popped (t : BuildState) : BuildState := { t with frame := t.outer.headD {}, outer := t.outer.tail }

theorem popped_frames (around : FramesGrow s.frames t.outer) : t.popped.frames = t.outer := by
  obtain ⟨f, rest, -, -, outer⟩ := List.forall₂_cons_left_iff.1 around
  simp only [popped, frames, outer, List.headD_cons, List.tail_cons]

/-- When a function ends, its frame is gone and the others have the binders that they had. -/
theorem Tidy.popped (hs : s.Tidy) (ht : t.Tidy)
    (retains : (s.inFunction signature capturing).Retains t) :
    t.popped.Tidy ∧ s.Retains t.popped ∧ t.popped.frames = t.outer ∧ t.frame.Joins t.popped.frame := by
  obtain ⟨-, around⟩ := List.forall₂_cons.1 retains.grows
  obtain ⟨-, others⟩ := List.forall₂_cons.1 retains.frames
  have frames := popped_frames around
  have formed := ht.formed
  obtain ⟨-, -, -, le⟩ := hs.inFunction signature capturing
  have joins : t.frame.Joins t.popped.frame := by
    unfold BuildState.frames at formed
    rw [← frames] at formed
    exact (List.isChain_cons_cons.1 formed.joined).1
  refine ⟨⟨?_, ?_⟩, ⟨Nat.le_trans le retains.supply, ?_, ?_⟩, frames, joins⟩
  · rw [frames]
    exact formed.tail
  · rw [frames]
    cases ht.tidy with
    | cons _ beyond => exact beyond
  · rw [frames]
    exact around
  · rw [frames]
    exact others

end

end BuildState

namespace Build

variable {s t : BuildState}

/-- The computation meets no fault, and the frames are retained. -/
def Orderly {α : Type} (act : Build α) (s : BuildState) : Prop :=
  ∃ result t, act s = (.ok result, t) ∧ t.Tidy ∧ s.Retains t

theorem Orderly.after {α : Type} {act : Build α} {t : BuildState} {result : Except QueryError α}
    (orderly : Orderly act s) (ran : act s = (.ok result, t)) :
    t.Tidy ∧ Frame.surroundings t.frames = Frame.surroundings s.frames := by
  obtain ⟨_, _, ran', tidy, retains⟩ := orderly
  cases ran'.symm.trans ran
  exact ⟨tidy, Frame.Retains.surroundings_eq retains.frames⟩

/-- A name that has a binder gives a variable that stands for it, any other gives an error and changes
nothing. -/
theorem reference_lexical (hs : s.Tidy) (name : String) :
    match (Frame.surroundings s.frames).lookup name with
    | none => reference name s = (.ok (.error (.unknownVariable name s.span)), s)
    | some (n, binder) => ∃ ref t, reference name s = (.ok (.ok (.var ref)), t) ∧ t.Tidy ∧
        s.Retains t ∧ Frame.Stands t.frames ref.id n binder := by
  have resolves : Frame.Resolves name s.frame s.outer s.supply := hs.tidy.resolves hs.formed name
  obtain ⟨le, formed⟩ := Frame.resolve_formed name s.frame s.outer s.supply hs.formed
  unfold Frame.Resolves at resolves
  have run := reference_run name s
  unfold BuildState.frames
  cases looked : (Frame.surroundings (s.frame :: s.outer)).lookup name with
  | none =>
    rw [looked] at resolves
    rw [resolves] at run
    exact run
  | some p =>
    rw [looked] at resolves
    obtain ⟨id, g, rest, t, resolved, found, tidy, retains⟩ := resolves
    rw [resolved] at run le formed
    obtain ⟨formed, grows, seen, -⟩ := formed id g rest rfl
    obtain ⟨ref, made, -⟩ := (formed.each g List.mem_cons_self).varRef seen s.span
    obtain ⟨n, binder, looked', stands⟩ := tidy.denotes found
    rw [Frame.Retains.surroundings_eq retains, looked] at looked'
    cases looked'
    dsimp only at run
    rw [made] at run
    exact ⟨ref, _, run, ⟨formed, tidy⟩, ⟨le, grows, retains⟩, Expr.id_of_varRef made ▸ stands⟩

theorem reference_orderly (hs : s.Tidy) (name : String) : Orderly (reference name) s := by
  have known := reference_lexical hs name
  cases looked : (Frame.surroundings s.frames).lookup name with
  | none =>
    rw [looked] at known
    exact ⟨_, s, known, hs, .refl s⟩
  | some p =>
    rw [looked] at known
    obtain ⟨ref, t, run, tidy, retains, -⟩ := known
    exact ⟨_, t, run, tidy, retains⟩

theorem letIn_lexical (hs : s.Tidy) (name : String) (value : Expr) {body : Build Expr}
    (hbody : Orderly body (s.inLet name)) :
    ∃ result inner slot t, body (s.inLet name) = (.ok result, inner) ∧
      letIn name value body s = (.ok (result.map (.letIn ⟨s.supply.nextVar⟩ slot value)), t) ∧
      t.frame.captures = inner.frame.captures ∧ t.outer = inner.outer ∧ t.Tidy ∧ s.Retains t := by
  obtain ⟨result, inner, run, tidy, retains⟩ := hbody
  have whole := letIn_run name value body s
  have entered : body { s with
      supply := ((s.frame.openLet name).run s.supply).2
      frame := ((s.frame.openLet name).run s.supply).1.2 } = (.ok result, inner) := run
  dsimp only at whole
  rw [entered] at whole
  exact ⟨result, inner, _, _, run, whole, rfl, rfl, hs.closeLet tidy retains⟩

theorem letIn_orderly (hs : s.Tidy) (name : String) (value : Expr) {body : Build Expr}
    (hbody : Orderly body (s.inLet name)) : Orderly (letIn name value body) s := by
  obtain ⟨result, t, slot, u, -, run, -, -, tidy, retains⟩ := letIn_lexical hs name value hbody
  exact ⟨_, u, run, tidy, retains⟩

theorem inFunction_run (signature : Signature) (capturing : Bool) (body : Build Expr) (s : BuildState) :
    inFunction signature capturing body s = match body (s.inFunction signature capturing) with
      | (.error f, t) => (.error f, t)
      | (.ok ended, t) =>
        (.ok (ended.map fun e => (s.paramsOf signature capturing, t.frame, e)), t.popped) := by
  rw [inFunction_eq]
  exact run_bind _ _ s

def Supplies (captures : List (VarId × VarId)) (es : List (VarId × Expr)) : Prop :=
  List.Forall₂ (fun q e => ∃ ref, e = (q.1, .var ref) ∧ ref.id = q.2) captures es

/-- The body of a function is built among its parameters and the binders around, and leaves the frames
around as they are afterwards. The closure supplies each captured variable by the one that it stands for
in the frame around. -/
theorem function_lexical (hs : s.Tidy) (signature : Signature) {body : Build Expr}
    (hbody : Orderly body (s.inFunction signature true)) :
    ∃ result inner t, body (s.inFunction signature true) = (.ok result, inner) ∧ t.Tidy ∧
      s.Retains t ∧ t.frames = inner.outer ∧ match result with
      | .error e => function signature body s = (.ok (.error e), t)
      | .ok e => (inner.frame.captures.map Prod.fst).Nodup ∧
        (inner.frame.captures.map Prod.snd).Nodup ∧
        ∃ c, function signature body s = (.ok (.ok (.closure c)), t) ∧
          c.params = s.paramsOf signature true ∧ c.body = e ∧
          Supplies inner.frame.captures c.captures := by
  obtain ⟨result, inner, run, tidy, retains⟩ := hbody
  obtain ⟨popped, kept, frames, joins⟩ := hs.popped tidy retains
  have ran := inFunction_run signature true body s
  rw [run] at ran
  have whole : function signature body s = (inFunction signature true body >>= fun p => do
      let scope := (← get).frame.scope
      let captures ← p.2.1.captures.mapM fun q =>
        return (q.1, ← ofFaulty (Expr.varRef scope q.2 s.span))
      let origin ← draw Supply.freshOrigin
      return .closure {
        name := signature.name
        declared := signature.returns
        annotations := signature.annotations
        scope := p.2.1.scope
        compiled := false
        params := p.1
        body := p.2.2
        span := s.span
        captures, origin }) s := by
    unfold function
    rw [run_bind, run_get]
  rw [run_bind, ran] at whole
  cases result with
  | error e => exact ⟨_, inner, _, run, popped, kept, frames, whole⟩
  | ok e =>
    obtain ⟨es, supplied, -, -, refs⟩ :=
      supplies_run popped.frame_formed s.span inner.frame.captures joins inner.popped
    have made : function signature body s = (do
        let captures ← inner.frame.captures.mapM fun q =>
          return (q.1, ← ofFaulty (Expr.varRef inner.popped.frame.scope q.2 s.span))
        let origin ← draw Supply.freshOrigin
        return .closure {
          name := signature.name
          declared := signature.returns
          annotations := signature.annotations
          scope := inner.frame.scope
          compiled := false
          params := s.paramsOf signature true
          body := e
          span := s.span
          captures, origin } : Build Expr) inner.popped := whole
    rw [run_bind, supplied] at made
    cases tidy.tidy with
    | cons linked around =>
      let t := { inner.popped with supply := (Supply.freshOrigin.run inner.popped.supply).2 }
      refine ⟨_, inner, t, run, ⟨popped.formed.mono (Nat.le_refl _), popped.tidy⟩,
        ⟨kept.supply, kept.grows, kept.frames⟩, frames, linked.captured_nodup,
        linked.captures_nodup around, _, made, rfl, rfl, refs⟩

theorem function_orderly (hs : s.Tidy) (signature : Signature) {body : Build Expr}
    (hbody : Orderly body (s.inFunction signature true)) : Orderly (function signature body) s := by
  obtain ⟨result, inner, t, -, tidy, retains, -, known⟩ := function_lexical hs signature hbody
  cases result with
  | error e => exact ⟨_, t, known, tidy, retains⟩
  | ok e =>
    obtain ⟨-, -, c, run, -⟩ := known
    exact ⟨_, t, run, tidy, retains⟩

theorem declare_lexical (hs : s.Tidy) (signature : Signature) {body : Build Expr}
    (hbody : Orderly body (s.inFunction signature false)) : Orderly (declare signature body) s := by
  obtain ⟨result, inner, run, tidy, retains⟩ := hbody
  obtain ⟨popped, kept, -⟩ := hs.popped tidy retains
  cases named : signature.name with
  | none =>
    have whole : declare signature body s = (.ok (.error .namelessDeclaration), s) := by
      unfold declare
      rw [named]
      rfl
    exact ⟨_, s, whole, hs, .refl s⟩
  | some name =>
    have ran := inFunction_run signature false body s
    rw [run] at ran
    have whole : declare signature body s = (inFunction signature false body >>= fun p => do
        ofExcept (← modifyRegistry (·.declare {
          declared := signature.returns
          annotations := signature.annotations
          scope := p.2.1.scope
          name
          params := p.1
          body := p.2.2
          span := s.span }))) s := by
      unfold declare
      rw [named, run_bind, run_get]
    rw [run_bind, ran] at whole
    cases result with
    | error e => exact ⟨_, _, whole, popped, kept⟩
    | ok e =>
      let d : Declaration := {
        declared := signature.returns
        annotations := signature.annotations
        scope := inner.frame.scope
        name
        params := s.paramsOf signature false
        body := e
        span := s.span }
      let t := { inner.popped with registry := (inner.popped.registry.declare d).2 }
      have made : declare signature body s =
          (ofExcept (inner.popped.registry.declare d).1 : Build FuncId) t := whole
      refine ⟨(inner.popped.registry.declare d).1, t, ?_, ⟨popped.formed, popped.tidy⟩,
        ⟨kept.supply, kept.grows, kept.frames⟩⟩
      rw [made]
      cases (inner.popped.registry.declare d).1 <;> rfl

end Build

end QueryFunctions
