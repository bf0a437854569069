import QueryFunctions.Proofs.Build.Calls
import QueryFunctions.Proofs.Current.Staging

/-! Whatever is built is staged: function bodies in the registry, and expressions in the frame at hand. -/
namespace QueryFunctions

/-- All bodies are staged, with no more than the parameters visible everywhere. -/
def Registry.Staged (n : Nat) (r : Registry) : Prop := ∀ id e body, r.find? id = some e →
  e.body = some body → body.Staged n e.scope.Lists (· ∈ e.params) ∧ Apart n (· ∈ e.params) body.lets

namespace Registry

variable {n n' : Nat} {r : Registry} {supply : Supply}

theorem Staged.mono (h : r.Staged n) (le : n ≤ n') : r.Staged n' := fun id e body found present =>
  let ⟨staged, apart⟩ := h id e body found present
  ⟨staged.mono le (fun here => here) fun seen => seen, apart.mono le fun _ seen => seen⟩

theorem Staged.update (h : r.Staged n) {id : FuncId} {f : Entry → Entry}
    (each : ∀ e body, (f e).body = some body → (f e).params = e.params ∧ (f e).scope = e.scope ∧
        e.body = some body ∨
      body.Staged n (f e).scope.Lists (· ∈ (f e).params) ∧ Apart n (· ∈ (f e).params) body.lets) :
    (r.update id f).Staged n := by
  intro other e body found present
  rw [find?_update] at found
  split at found
  · obtain ⟨old, here, rfl⟩ := Option.map_eq_some_iff.1 found
    rcases each old body present with ⟨params, scope, kept⟩ | new
    · rw [params, scope]
      exact h _ old body here kept
    · exact new
  · exact h _ e body found present

theorem Staged.entry (h : r.Staged n) (name : String) (arity : Nat) : (r.entry name arity).2.Staged n := by
  intro id e body found present
  rcases (r.find?_entry name arity).2 id e found with old | rfl
  · exact h id e body old present
  · cases present

theorem Staged.reference (h : r.Staged n) (name : String) (arity : Nat) (span : Span) :
    (r.reference name arity span).2.Staged n :=
  (h.entry name arity).update fun _ _ present => .inl ⟨rfl, rfl, present⟩

theorem Staged.declare (h : r.Staged n) {decl : Declaration}
    (staged : decl.body.Staged n decl.scope.Lists (· ∈ decl.params))
    (apart : Apart n (· ∈ decl.params) decl.body.lets) : (r.declare decl).2.Staged n := by
  unfold Registry.declare
  dsimp only
  split
  · exact h.entry _ _
  · refine (h.entry _ _).update fun e body present => .inr ?_
    cases present
    exact ⟨staged, apart⟩

theorem Staged.resolveCall (h : r.Staged n) (name : String) (args : List Expr) (span : Span) :
    (r.resolveCall name args span).2.Staged n := by
  unfold Registry.resolveCall
  split
  · split <;> exact h
  · exact h.reference name args.length span

theorem staged_passing {c : Closure} {site : CallSite} {span : Span} (raw : c.compiled = false)
    (none : c.captures = []) (sound : c.scope.Sound supply) (le : supply.nextVar ≤ n)
    (params : c.params = c.scope.vars.map (·.id))
    (body : c.body = .call site (c.scope.vars.map fun v => .var ⟨v.id, v.slot, v.type, span⟩))
    (known : Listing) (visible : VarId → Prop) :
    (Expr.closure c).Staged n known visible := by
  have each : ∀ e ∈ c.scope.vars.map fun v => Expr.var ⟨v.id, v.slot, v.type, span⟩,
      e.Staged n c.scope.Lists c.Own ∧ e.lets = [] := by
    refine List.forall_mem_map.2 fun v mem => ⟨.var (.inl ?_) ?_, rfl⟩
    · exact params ▸ List.mem_map_of_mem mem
    · exact Scope.lists_of_find? (sound.find?_of_mem mem)
  refine .closure raw ⟨sound.mono le, fun p mem => ?_, ?_⟩ ?_ ?_ ?_
  · obtain ⟨v, among, rfl⟩ := List.mem_map.1 (params ▸ mem)
    exact Scope.isSome_find?_of_mem among
  · rw [none]
    exact List.forall_mem_nil _
  · rw [none]
    exact List.forall_mem_nil _
  · rw [body]
    exact .inner rfl rfl fun e mem => (each e mem).1
  · rw [body, Expr.lets, listLets_eq_nil fun e mem => (each e mem).2]
    exact .nil

theorem resolveLiteral_staged (r : Registry) (supply : Supply) (name : String) (arity : Nat) (span : Span) :
    let p := (r.resolveLiteral name arity span).run supply
    (r.Staged n → p.1.2.Staged n) ∧ ∀ e, p.1.1 = .ok e → ∀ known visible,
      e.Staged p.2.nextVar known visible ∧ e.lets = [] := by
  unfold resolveLiteral
  split
  · split
    · refine ⟨id, ?_⟩
      rintro _ ⟨⟩ known visible
      exact ⟨.value (FuncItem.ofBuiltin_plain _ supply).builtin, rfl⟩
    · exact ⟨id, nofun⟩
  · refine ⟨fun h => h.reference name arity span, ?_⟩
    rintro _ ⟨⟩ known visible
    obtain ⟨serves, -⟩ := numberedParams_serves 0 arity (.empty supply)
    refine ⟨.literal (staged_passing rfl rfl serves.sound ?_ rfl rfl known visible), rfl⟩
    exact Nat.le_refl _

end Registry

namespace BuildState

structure Ready (s : BuildState) : Prop where
  formed : s.Formed False
  pins : ∀ f ∈ s.frames, f.Pins
  functions : s.registry.Staged s.supply.nextVar

variable {s : BuildState}

theorem Ready.frame (hs : s.Ready) : s.frame.Formed s.supply :=
  hs.formed.frames.each s.frame List.mem_cons_self

theorem Ready.replaced (hs : s.Ready) {t : BuildState} (formed : t.Formed False)
    (le : s.supply.nextVar ≤ t.supply.nextVar) (registry : t.registry = s.registry)
    (pins : ∀ f ∈ t.frames, f.Pins) : t.Ready := ⟨formed, pins, registry ▸ hs.functions.mono le⟩

end BuildState

def stagingContract : Contract BuildState where
  holds := BuildState.Ready
  leads := BuildState.Grows
  refl := BuildState.Grows.refl
  trans := BuildState.Grows.trans
  raises _ := True
  faults _ := False

namespace Build

variable {α β : Type} {s t u : BuildState}

/-- Started in `s`, the computation leaves nothing behind but staged code. -/
abbrev Stages (s : BuildState) (act : Build α) (post : α → BuildState → Prop) : Prop :=
  stagingContract.Keeps () s (fun _ => act : Computation Unit BuildState α) post

namespace Stages

theorem pure {a : α} {post : α → BuildState → Prop} (hs : s.Ready) (ha : post a s) :
    Stages s (pure a) post := Contract.Keeps.pure hs ha

theorem throw {e : QueryError} {post : α → BuildState → Prop} (hs : s.Ready) :
    Stages s (throw e : Build α) post := Contract.Keeps.throw hs trivial

theorem bind {act : Build α} {next : α → Build β} {mid : α → BuildState → Prop}
    {post : β → BuildState → Prop} (first : Stages s act mid)
    (second : ∀ a t, t.Ready → s.Grows t → mid a t → Stages t (next a) post) :
    Stages s (act >>= next) post := Contract.Keeps.bind first second

theorem mono {act : Build α} {post post' : α → BuildState → Prop} (kept : Stages s act post)
    (weaker : ∀ a t, t.Ready → s.Grows t → post a t → post' a t) : Stages s act post' :=
  Contract.Keeps.mono kept weaker

theorem of_eq {act : Build α} {a : α} {post : α → BuildState → Prop} (run : act s = (.ok (.ok a), t))
    (ht : t.Ready) (hst : s.Grows t) (ha : post a t) : Stages s act post :=
  Contract.Keeps.of_eq run ht hst ha

theorem get (hs : s.Ready) : Stages s MonadState.get fun a t => a = s ∧ t = s :=
  of_eq rfl hs (.refl s) ⟨rfl, rfl⟩

theorem modify {f : BuildState → BuildState} (ready : (f s).Ready) (grows : s.Grows (f s)) :
    Stages s (modify f) fun _ t => t = f s := of_eq rfl ready grows rfl

theorem ofExcept {result : Except QueryError α} (hs : s.Ready) :
    Stages s (ofExcept result) fun a t => result = .ok a ∧ t = s := by
  cases result with
  | ok a => exact pure hs ⟨rfl, rfl⟩
  | error e => exact throw hs

theorem of_keeps {act : Build α} {post post' : α → BuildState → Prop} (kept : Keeps False s act post)
    (more : ∀ result t, act s = (.ok result, t) → t.Formed False → s.Grows t →
      t.Ready ∧ ∀ a, result = .ok a → post a t → post' a t) : Stages s act post' := by
  change (buildContract False).Admits s _ (act s) at kept
  change stagingContract.Admits s _ (act s)
  rcases ran : act s with ⟨f | e | a, t⟩ <;> rw [ran] at kept
  · exact kept
  · exact ⟨(more _ _ ran kept.1 kept.2.1).1, kept.2⟩
  · obtain ⟨ready, value⟩ := more _ _ ran kept.1 kept.2.1
    exact ⟨ready, kept.2.1, value a rfl kept.2.2⟩

theorem draw (hs : s.Ready) {act : StateM Supply α}
    (grows : s.supply.nextVar ≤ (act.run s.supply).2.nextVar) :
    Stages s (draw act) fun a t =>
      a = (act.run s.supply).1 ∧ t = { s with supply := (act.run s.supply).2 } := by
  refine of_keeps (Keeps.draw hs.formed grows) ?_
  rintro _ t ⟨⟩ formed -
  exact ⟨hs.replaced formed grows rfl hs.pins, fun a same made => made⟩

theorem moveTo (hs : s.Ready) (span : Span) : Stages s (moveTo span) fun _ _ => True := by
  refine of_keeps (Keeps.moveTo hs.formed span) ?_
  rintro _ t ⟨⟩ formed -
  exact ⟨hs.replaced formed (Nat.le_refl _) rfl hs.pins, fun _ _ made => made⟩

theorem moveBack (hs : s.Ready) (own : Option Span) : Stages s (moveBack own) fun _ _ => True := by
  cases own with
  | none => exact pure hs trivial
  | some span => exact moveTo hs span

end Stages

theorem Stages.and {act : Build α} {post post' : α → BuildState → Prop} (kept : Keeps False s act post)
    (staged : Stages s act post') : Stages s act fun a t => post a t ∧ post' a t := by
  change (buildContract False).Admits s _ (act s) at kept
  change stagingContract.Admits s _ (act s) at staged
  change stagingContract.Admits s _ (act s)
  generalize act s = outcome at kept staged
  obtain ⟨f | e | a, t⟩ := outcome
  · exact staged
  · exact staged
  · exact ⟨staged.1, staged.2.1, kept.2.2, staged.2.2⟩

theorem staged_varRef {n : Nat} {scope : Scope} {id : VarId} {span : Span} {e : Expr}
    (made : Expr.varRef scope id span = .ok e) (visible : VarId → Prop) (seen : visible id) :
    e.Staged n scope.Lists visible ∧ e.lets = [] := by
  unfold Expr.varRef at made
  split at made
  · rename_i v found
    cases made
    exact ⟨.var seen (Scope.lists_of_find? found), rfl⟩
  · cases made

theorem reference_stages (hs : s.Ready) (name : String) :
    Stages s (reference name) fun e t => s.Builds t [e] := by
  obtain ⟨grows, resolved⟩ := Frame.resolve_formed name s.frame s.outer s.supply hs.formed.frames
  change stagingContract.Admits s _ (reference name s)
  rw [reference_run]
  have functions := hs.functions.mono grows
  have drafts := hs.formed.functions.mono grows
  rcases found : (Frame.resolve name s.frame s.outer).run s.supply with ⟨_ | ⟨id, frame, outer⟩, supply⟩
  all_goals rw [found] at grows resolved functions drafts
  · have hu : BuildState.Ready { s with supply } :=
      ⟨⟨hs.formed.frames.mono grows, drafts⟩, hs.pins, functions⟩
    exact ⟨hu, ⟨grows, .refl _, .refl _, .inl⟩, trivial⟩
  · obtain ⟨formed, grown, seen, drawn⟩ := resolved id frame outer rfl
    have hu : BuildState.Ready { s with supply, frame, outer } :=
      ⟨⟨formed, drafts⟩, Frame.resolve_pins name s.outer hs.pins found, functions⟩
    obtain ⟨ref, made, -⟩ := hu.frame.varRef seen s.span
    dsimp only
    rw [made]
    obtain ⟨staged, bare⟩ := staged_varRef made (· ∈ frame.visible) seen
    exact ⟨hu, ⟨grows, .refl _, grown, drawn⟩, .leaf staged bare⟩

theorem builds_letIn {v : BuildState} {name : String} {value body : Expr}
    (hvalue : s.Builds t [value]) (hst : s.Grows t) (hv : v.Formed False)
    (grows : (t.inLet name).Grows v) (hbody : (t.inLet name).Builds v [body]) :
    let w : BuildState := { v with frame := v.frame.closeLet t.frame.scope.openRegion }
    t.Grows w → s.Builds w [.letIn ⟨t.supply.nextVar⟩ t.frame.scope.freeSlot value body] := by
  intro w htw
  let id : VarId := ⟨t.supply.nextVar⟩
  let x : Variable := ⟨id, name, none, .item, t.frame.scope.freeSlot, false⟩
  have vars : (t.inLet name).frame.scope.vars = t.frame.scope.vars ++ [x] := rfl
  have last : x ∈ v.frame.scope.vars :=
    grows.frame.vars.subset (vars ▸ List.mem_append_right _ List.mem_cons_self)
  have frame := hv.frames.each v.frame List.mem_cons_self
  obtain ⟨-, -, below⟩ := Frame.closeLet_formed grows.frame frame t.frame.scope.openRegion
  have hvalue' := hvalue.later htw
  have lets : listLets [.letIn id t.frame.scope.freeSlot value body] =
      id :: (listLets [value] ++ listLets [body]) := by simp [listLets, Expr.lets]
  have next : (t.inLet name).supply.nextVar = t.supply.nextVar + 1 := rfl
  have le := grows.supply
  refine ⟨fun e mem => List.mem_singleton.1 mem ▸ ?_, ?_, ?_⟩
  · refine Expr.staged_letIn.2 ⟨⟨x.type, ?_⟩, hvalue'.one_staged, ?_⟩
    · exact Scope.lists_of_find? (frame.sound.find?_of_mem last)
    · exact hbody.one_staged.mono (Nat.le_refl _) (fun here => here) fun seen => (below v.outer).bound seen
  · rw [lets, List.nodup_cons, List.nodup_append]
    refine ⟨fun mem => ?_, hvalue.distinct, hbody.distinct, fun a mem b mem' same => ?_⟩
    · rcases List.mem_append.1 mem with mem | mem
      · exact Nat.lt_irrefl _ (hvalue.lets id mem).2.1
      · exact Nat.not_succ_le_self _ (next ▸ (hbody.lets id mem).1)
    · subst same
      have early := (hvalue.lets a mem).2.1
      have late := (hbody.lets a mem').1
      omega
  · rw [lets]
    refine List.forall_mem_cons.2 ⟨⟨hst.supply, ?_, x, last, rfl, rfl⟩, fun a mem => ?_⟩
    · exact Nat.lt_of_succ_le le
    · rcases List.mem_append.1 mem with mem | mem
      · exact hvalue'.lets a mem
      · obtain ⟨lower, rest⟩ := hbody.lets a mem
        have before := hst.supply
        exact ⟨by omega, rest⟩

theorem letIn_stages (ht : t.Ready) (name : String) {value : Expr} (hst : s.Grows t)
    (drafted : t.Holds False value) (hvalue : s.Builds t [value]) {body : Build Expr}
    (made : ∀ u : BuildState, u.Formed False → Makes False u body)
    (staged : ∀ u : BuildState, u.Ready → Stages u body fun e v => u.Builds v [e]) :
    Stages t (letIn name value body) fun e u => s.Builds u [e] := by
  obtain ⟨opened, -, declared, -, next⟩ := Frame.openLet_formed ht.frame name
  have le : t.supply.nextVar ≤ (t.inLet name).supply.nextVar := by
    exact Nat.le_of_lt (Nat.lt_of_lt_of_eq (Nat.lt_succ_self _) next.symm)
  have entered : (t.inLet name).Ready := by
    refine ht.replaced ⟨ht.formed.frames.replaced opened le rfl
      (t.frame.scope.fresh_add t.supply name none false), ht.formed.functions.mono le⟩ le rfl
      (List.forall_mem_cons.2 ⟨?_, ?_⟩)
    · intro x mem
      obtain ⟨v, among, same⟩ := ht.pins t.frame List.mem_cons_self x mem
      exact ⟨v, List.mem_append_left _ among, same⟩
    · exact fun f mem => ht.pins f (List.mem_cons_of_mem _ mem)
  refine Stages.of_keeps (letIn_makes ht.formed name drafted made) fun result w run formed grows => ?_
  have kept := staged _ entered
  change stagingContract.Admits _ _ (body (t.inLet name)) at kept
  have whole := letIn_run name value body t
  rw [run] at whole
  rcases ran : body (t.inLet name) with ⟨f | ended, v⟩
  all_goals
    have inner : body { t with
        supply := ((t.frame.openLet name).run t.supply).2
        frame := ((t.frame.openLet name).run t.supply).1.2 } = (_, v) := ran
    dsimp only at whole
    rw [inner] at whole
    cases whole
  rw [ran] at kept
  have hv : v.Ready ∧ (t.inLet name).Grows v := by
    cases ended <;> exact ⟨kept.1, kept.2.1⟩
  refine ⟨hv.1.replaced formed (Nat.le_refl _) rfl (List.forall_mem_cons.2 ⟨?_, ?_⟩), ?_⟩
  · exact hv.1.pins v.frame List.mem_cons_self
  · exact fun f mem => hv.1.pins f (List.mem_cons_of_mem _ mem)
  · intro e same _
    cases ended with
    | error => cases same
    | ok b =>
      cases same
      obtain ⟨x, found⟩ := Option.isSome_iff_exists.1
        (Scope.isSome_find?_iff.2 (List.mem_map_of_mem declared))
      have slot : ((((t.frame.openLet name).run t.supply).1.2.scope.find?
          ((t.frame.openLet name).run t.supply).1.1).map (·.slot)).getD 0 = t.frame.scope.freeSlot := by
        rw [found]
        exact opened.sound.slot_eq (Scope.mem_layout_of_find? found).2 declared
      rw [slot]
      exact builds_letIn hvalue hst hv.1.formed hv.2 kept.2.2 grows

/-- A function body that is staged, with its parameters and what it captures. -/
structure BodyStaged (p : List VarId × Frame × Expr) (t : BuildState) : Prop where
  staged : p.2.2.Staged t.supply.nextVar p.2.1.scope.Lists
    fun id => id ∈ p.1 ∨ id ∈ p.2.1.captures.map Prod.fst
  apart : Apart t.supply.nextVar (fun id => id ∈ p.1 ∨ id ∈ p.2.1.captures.map Prod.fst) p.2.2.lets

theorem bodyStaged_of_builds {params : List VarId} {frame : Frame} {supply : Supply} {body : Expr}
    (begins : frame.Begins params supply) (grows : frame.Grows t.frame) (ht : t.Ready)
    (h : s.Builds t [body]) : BodyStaged (params, t.frame, body) t := by
  obtain ⟨-, le⟩ := begins.ends grows ht.frame t.outer
  refine ⟨h.one_staged.mono (Nat.le_refl _) (fun here => here) fun seen => le.bound seen,
    h.apart ht.frame.sound fun id seen => ?_⟩
  rcases seen with param | captured
  · obtain ⟨x, known, rfl⟩ := List.mem_map.1 (begins.serves.known id (.inl param))
    obtain ⟨v, among, rfl⟩ := List.mem_map.1 known
    exact ⟨v, grows.vars.subset among, rfl, (begins.pinned v among).1⟩
  · exact ht.pins t.frame List.mem_cons_self id captured

theorem inFunction_stages (hs : s.Ready) (signature : Signature) (capturing : Bool) {body : Build Expr}
    (made : ∀ u : BuildState, u.Formed False → Makes False u body)
    (staged : ∀ u : BuildState, u.Ready → Stages u body fun e v => u.Builds v [e]) :
    Stages s (inFunction signature capturing body) fun p t => Bodied False capturing p t ∧
      BodyStaged p t := by
  obtain ⟨begins, -, le, fresh⟩ := paramFrame_begins signature capturing s.supply
  have entered : (s.inFunction signature capturing).Ready :=
    hs.replaced ⟨hs.formed.frames.enter begins le (hs.formed.frames.apart_later fresh),
      hs.formed.functions.mono le⟩ le rfl (List.forall_mem_cons.2 ⟨begins.pins, hs.pins⟩)
  refine Stages.of_keeps (inFunction_keeps hs.formed signature capturing made)
    fun result w run formed grows => ?_
  have kept := staged _ entered
  change stagingContract.Admits _ _ (body (s.inFunction signature capturing)) at kept
  rw [inFunction_run] at run
  rcases ran : body (s.inFunction signature capturing) with ⟨f | ended, v⟩
  all_goals
    rw [ran] at run
    cases run
  rw [ran] at kept
  have hv : v.Ready ∧ (s.inFunction signature capturing).Grows v := by
    cases ended <;> exact ⟨kept.1, kept.2.1⟩
  have frames : v.popped.frames = v.outer :=
    BuildState.popped_frames (List.forall₂_cons.1 hv.2.frames).2
  refine ⟨hv.1.replaced formed (Nat.le_refl _) rfl fun f mem => ?_, fun p same bodied => ⟨bodied, ?_⟩⟩
  · exact hv.1.pins f (List.mem_cons_of_mem _ (frames ▸ mem))
  · cases ended with
    | error => cases same
    | ok b =>
      cases same
      have whole := bodyStaged_of_builds begins hv.2.frame hv.1 kept.2.2
      exact ⟨whole.staged, whole.apart⟩

theorem supplies_staged {n : Nat} {f : Frame} (span : Span) (captures : List (VarId × VarId))
    (joins : ∀ q ∈ captures, q.2 ∈ f.visible) {es : List (VarId × Expr)}
    (run : (captures.mapM fun q => return (q.1, ← ofFaulty (Expr.varRef f.scope q.2 span)) :
      Build (List (VarId × Expr))) s = (.ok (.ok es), t)) :
    ∀ q ∈ es, q.2.Staged n f.scope.Lists (· ∈ f.visible) ∧ q.2.lets = [] := by
  induction captures generalizing es with
  | nil =>
    cases run
    exact nofun
  | cons q captures ih =>
    rw [List.mapM_cons, run_bind] at run
    cases made : Expr.varRef f.scope q.2 span with
    | error =>
      rw [made] at run
      cases run
    | ok e =>
      rw [made] at run
      change (captures.mapM _ >>= fun es => pure ((q.1, e) :: es) : Build _) s = _ at run
      rw [run_bind] at run
      rcases rest : (captures.mapM fun q => return (q.1, ← ofFaulty (Expr.varRef f.scope q.2 span)) :
        Build (List (VarId × Expr))) s with ⟨_ | _ | es', u⟩
      all_goals
        rw [rest] at run
        cases run
      exact List.forall_mem_cons.2 ⟨staged_varRef made (· ∈ f.visible) (joins q List.mem_cons_self),
        ih (fun x mem => joins x (List.mem_cons_of_mem _ mem)) rest⟩

theorem function_stages (hs : s.Ready) (signature : Signature) {body : Build Expr}
    (made : ∀ u : BuildState, u.Formed False → Makes False u body)
    (staged : ∀ u : BuildState, u.Ready → Stages u body fun e v => u.Builds v [e]) :
    Stages s (function signature body) fun e t => s.Builds t [e] := by
  refine Stages.bind (Stages.get hs) fun start t ht _ _ => ?_
  refine Stages.bind (inFunction_stages ht signature true made staged) fun p u hu _ hp => ?_
  obtain ⟨params, inner, e⟩ := p
  obtain ⟨bodied, hbody⟩ := hp
  refine Stages.bind (Stages.get hu) fun _ v hv _ same => ?_
  obtain ⟨rfl, rfl⟩ := same
  obtain ⟨es, run, keys, -⟩ := supplies_run hv.frame start.span inner.captures bodied.joins v
  have supplied := supplies_staged (n := v.supply.nextVar) start.span inner.captures bodied.joins run
  have known : Stages v _ fun captures w => captures = es ∧ w = v :=
    Stages.of_eq run hv (.refl v) ⟨rfl, rfl⟩
  refine Stages.bind known fun captures _ _ _ same => ?_
  obtain ⟨rfl, rfl⟩ := same
  refine Stages.bind (Stages.draw hu (Nat.le_refl _)) fun origin x hx _ drawn => Stages.pure hx ?_
  obtain ⟨rfl, rfl⟩ := drawn
  obtain ⟨inside, apart⟩ := hbody
  dsimp only at inside apart
  rw [← keys] at inside apart
  refine .leaf (.closure rfl ⟨bodied.serves.sound.mono (Nat.le_refl _), fun p mem => ?_, fun q mem => ?_⟩
    (fun q mem => (supplied q mem).1) inside apart) ?_
  · exact Scope.isSome_find?_iff.2 (bodied.serves.known p (.inl mem))
  · exact Scope.isSome_find?_iff.2 (bodied.serves.known q.1 (.inr (keys ▸ List.mem_map_of_mem mem)))
  · rw [Expr.lets, Closure.lets, suppliesLets_eq]
    exact listLets_eq_nil (List.forall_mem_map.2 fun q mem => (supplied q mem).2)

theorem modifyRegistry_stages (hs : s.Ready) {f : Registry → α × Registry}
    (leads : Registry.Leads False s.supply s.registry (f s.registry).2)
    (functions : (f s.registry).2.Staged s.supply.nextVar) :
    Stages s (modifyRegistry f) fun a t =>
      a = (f s.registry).1 ∧ t = { s with registry := (f s.registry).2 } := by
  refine Stages.of_keeps (modifyRegistry_keeps hs.formed leads) ?_
  rintro _ t ⟨⟩ formed -
  exact ⟨⟨formed, hs.pins, functions⟩, fun _ _ made => made⟩

theorem declare_stages (hs : s.Ready) (signature : Signature) {body : Build Expr}
    (made : ∀ u : BuildState, u.Formed False → Makes False u body)
    (staged : ∀ u : BuildState, u.Ready → Stages u body fun e v => u.Builds v [e]) :
    Stages s (declare signature body) fun _ _ => True := by
  refine Stages.bind (Stages.get hs) fun start t ht _ _ => ?_
  split
  · exact Stages.throw ht
  · rename_i name _
    refine Stages.bind (inFunction_stages ht signature false made staged) fun p u hu _ hp => ?_
    obtain ⟨params, inner, e⟩ := p
    obtain ⟨bodied, inside, apart⟩ := hp
    obtain ⟨closed, serves, draft⟩ := bodied.alone
    dsimp only at closed inside apart
    rw [closed] at inside apart
    have own : ∀ id, id ∈ params ∨ id ∈ List.map Prod.fst ([] : List (VarId × VarId)) → id ∈ params :=
      fun id here => here.resolve_right nofun
    let d : Declaration := {
      declared := signature.returns
      annotations := signature.annotations
      scope := inner.scope
      name
      params
      body := e
      span := start.span }
    have leads : Registry.Leads False u.supply u.registry (u.registry.declare d).2 :=
      hu.formed.functions.inStep.declare_leads serves draft
    have functions : (u.registry.declare d).2.Staged u.supply.nextVar := hu.functions.declare
      (inside.mono (Nat.le_refl _) (fun here => here) fun {id} => own id)
      (apart.mono (Nat.le_refl _) fun _ => .inl)
    refine Stages.bind (modifyRegistry_stages hu leads functions) fun result v hv _ _ => ?_
    exact (Stages.ofExcept hv).mono fun _ _ _ _ _ => trivial

end Build

end QueryFunctions
