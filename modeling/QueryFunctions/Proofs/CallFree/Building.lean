import QueryFunctions.Proofs.Build.Surface
import QueryFunctions.Proofs.CallFree.Basic

/-! What the builder makes of queries without calls is code without calls. A frame shelters the variables
that are visible in it: their slots stay taken, so that no let inside gets one of them, even if lets that
are over have given theirs back. -/
namespace QueryFunctions

mutual
/-- Nothing is called but built-ins that call nothing themselves. -/
def Surface.callFree : Surface → Bool
  | .datum _ | .focus | .var _ | .error _ => true
  | .seq items => listCallFree items
  | .arith _ lhs rhs | .compare _ lhs rhs => lhs.callFree && rhs.callFree
  | .branch cond yes no => cond.callFree && (yes.callFree && no.callFree)
  | .treat expr _ => expr.callFree
  | .letIn _ value body => value.callFree && body.callFree
  | .call name args => (Builtin.ofName? name).any (!·.callsBack) && listCallFree args
  | .builtin function args => !function.callsBack && listCallFree args
  | .located _ inner => inner.callFree
  | .dynamicCall _ _ _ | .literal _ _ | .partialCall _ _ | .partialApply _ _ | .partialAt _ _ _
  | .function _ _ | .supplied _ _ | .declare _ _ _ => false
termination_by structural x => x

def listCallFree : List Surface → Bool
  | [] => true
  | x :: xs => x.callFree && listCallFree xs
termination_by structural x => x
end

/-- The visible variables are among `live`, and their slots are taken. -/
structure Frame.Shelters (live : Live) (f : Frame) : Prop where
  known : ∀ p ∈ live, p ∈ f.scope.layout
  taken : ∀ p ∈ live, f.scope.Taken p.2
  visible : ∀ id ∈ f.visible, ∃ slot, (id, slot) ∈ live

namespace Frame.Shelters

variable {live : Live} {f g : Frame} {supply : Supply}

theorem fresh (h : f.Shelters live) (sound : f.scope.Sound supply) :
    ∀ p ∈ live, p.1 ≠ ⟨supply.nextVar⟩ ∧ p.2 ≠ f.scope.freeSlot := by
  refine fun p mem => ⟨fun same => ?_, fun same => ?_⟩
  · have lt := sound.fresh p (h.known p mem)
    rw [same] at lt
    exact Nat.lt_irrefl _ lt
  · have taken := h.taken p mem
    rw [same] at taken
    exact f.scope.not_taken_freeSlot taken

theorem openLet (h : f.Shelters live) (name : String) (supply : Supply) :
    ((f.openLet name).run supply).1.2.Shelters ((⟨supply.nextVar⟩, f.scope.freeSlot) :: live) := by
  refine ⟨fun p mem => ?_, fun p mem => ?_, fun x mem => ?_⟩
  · change p ∈ (f.scope.add ⟨supply.nextVar⟩ name none false).layout
    rw [Scope.layout_add]
    rcases List.mem_cons.1 mem with rfl | mem
    · exact List.mem_append_right _ List.mem_cons_self
    · exact List.mem_append_left _ (h.known p mem)
  · refine (Scope.taken_add f.scope ⟨supply.nextVar⟩ name none false _).2 ?_
    rcases List.mem_cons.1 mem with rfl | mem
    · exact .inr rfl
    · exact .inl (h.taken p mem)
  · rcases List.mem_cons.1 mem with rfl | mem
    · exact ⟨_, List.mem_cons_self⟩
    · obtain ⟨slot, among⟩ := h.visible x mem
      exact ⟨slot, List.mem_cons_of_mem _ among⟩

/-- When a let ends, the slots that are given back are those of variables that came with it or later. -/
theorem closeLet {p : VarId × Nat} (before : f.Shelters live) (h : g.Shelters (p :: live))
    (names : g.names.tail = f.names) {mark : Nat}
    (later : ∀ v ∈ g.scope.vars.drop mark, ∀ p ∈ live, p.2 ≠ v.slot) :
    (g.closeLet mark).Shelters live := by
  refine ⟨fun q mem => h.known q (List.mem_cons_of_mem _ mem), fun q mem => ?_, fun x mem => ?_⟩
  · exact Scope.taken_closeRegion (h.taken q (List.mem_cons_of_mem _ mem))
      fun v among _ same => later v among q mem same.symm
  · refine before.visible x ?_
    unfold Frame.visible at mem ⊢
    rw [← names]
    exact mem

end Frame.Shelters

/-- Building in a frame that is not inside another one. Variables that are declared meanwhile have other
slots than those in scope. -/
def sheltering (live : Live) : Law BuildState where
  holds s := s.outer = [] ∧ s.frame.scope.Sound s.supply ∧ s.frame.Shelters live
  leads s t := t.frame.names = s.frame.names ∧ ∃ more, t.frame.scope.vars = s.frame.scope.vars ++ more ∧
    ∀ v ∈ more, ∀ p ∈ live, p.2 ≠ v.slot
  refl s := ⟨rfl, [], (List.append_nil _).symm, by simp⟩
  trans := by
    rintro s t u ⟨names, more, vars, apart⟩ ⟨names', more', vars', apart'⟩
    refine ⟨names'.trans names, more ++ more', by rw [vars', vars, List.append_assoc], fun v mem => ?_⟩
    exact (List.mem_append.1 mem).elim (apart v) (apart' v)

namespace Build

variable {live : Live} {s t : BuildState} {α β : Type}

abbrev Sheltered (live : Live) (s : BuildState) (act : Build α) (post : α → BuildState → Prop) : Prop :=
  (sheltering live).Keeps () s (fun _ => act : Computation Unit BuildState α) post

/-- The computation makes code without calls. -/
abbrev MakesCallFree (live : Live) (s : BuildState) (act : Build Expr) : Prop :=
  Sheltered live s act fun e t => e.CallFree t.frame.scope.layout live

theorem Sheltered.bind {act : Build α} {next : α → Build β} {mid : α → BuildState → Prop}
    {post : β → BuildState → Prop} (first : Sheltered live s act mid)
    (second : ∀ a t, (sheltering live).holds t → (sheltering live).leads s t → mid a t →
      Sheltered live t (next a) post) : Sheltered live s (act >>= next) post :=
  Law.Keeps.bind first second

theorem Sheltered.pure {a : α} {post : α → BuildState → Prop} (hs : (sheltering live).holds s)
    (ha : post a s) : Sheltered live s (pure a) post := Law.Keeps.pure hs ha

theorem Sheltered.get (hs : (sheltering live).holds s) : Sheltered live s get fun a t => a = s ∧ t = s :=
  Law.Keeps.get hs

theorem Sheltered.moveBack (hs : (sheltering live).holds s) (own : Option Span) :
    Sheltered live s (moveBack own) fun _ t => t.frame = s.frame := by
  cases own with
  | none => exact .pure hs rfl
  | some span => exact Law.Keeps.of_eq rfl hs ((sheltering live).refl s) rfl

theorem layout_subset (lead : (sheltering live).leads s t) :
    ∀ p ∈ s.frame.scope.layout, p ∈ t.frame.scope.layout := by
  obtain ⟨-, more, vars, -⟩ := lead
  intro p mem
  unfold Scope.layout
  rw [vars, List.map_append]
  exact List.mem_append_left _ mem

theorem later_callFree (lead : (sheltering live).leads s t) {e : Expr}
    (h : e.CallFree s.frame.scope.layout live) : e.CallFree t.frame.scope.layout live :=
  h.mono (layout_subset lead)

theorem reference_callFree (hs : (sheltering live).holds s) (name : String) :
    MakesCallFree live s (reference name) := by
  obtain ⟨outer, sound, shelters⟩ := hs
  refine .bind (.get ⟨outer, sound, shelters⟩) fun _ t _ _ same => ?_
  obtain ⟨rfl, rfl⟩ := same
  -- There is no frame around, so a name is found here or not at all.
  have found : Frame.resolve name t.frame t.outer t.supply =
      ((t.frame.find? name).map fun id => (id, t.frame, []), t.supply) := by
    rw [outer]
    rfl
  have drawn : Sheltered live t (draw (Frame.resolve name t.frame t.outer)) fun a u =>
      a = (t.frame.find? name).map (fun id => (id, t.frame, [])) ∧ u = t := by
    refine Law.Keeps.of_eq ?_ ⟨outer, sound, shelters⟩ ((sheltering live).refl t) ⟨rfl, rfl⟩
    change (Except.ok (Except.ok (Frame.resolve name t.frame t.outer t.supply).1),
      { t with supply := (Frame.resolve name t.frame t.outer t.supply).2 }) = _
    rw [found]
  refine .bind drawn fun result u hu _ same => ?_
  obtain ⟨rfl, rfl⟩ := same
  cases here : u.frame.find? name with
  | none => exact Law.Keeps.throw hu
  | some id =>
    obtain ⟨slot, mem⟩ := shelters.visible id (Frame.mem_visible_of_find? here)
    obtain ⟨v, known⟩ := Option.isSome_iff_exists.1
      (Scope.isSome_find?_iff.2 (List.mem_map_of_mem (shelters.known _ mem)))
    have same := sound.slot_eq (shelters.known _ mem) (Scope.mem_layout_of_find? known).2
    have made : Expr.varRef u.frame.scope id u.span = .ok (.var ⟨id, v.slot, v.type, u.span⟩) := by
      unfold Expr.varRef
      rw [known]
    have kept : Sheltered live u (modify fun s => { s with frame := u.frame, outer := [] })
      fun _ t => t = u := by
      refine Law.Keeps.of_eq rfl ⟨rfl, sound, shelters⟩ ((sheltering live).refl u) ?_
      rw [← outer]
    refine .bind kept fun _ w hw _ here' => ?_
    subst here'
    rw [made]
    exact .pure hw (.var (same ▸ mem))

theorem letIn_callFree (hs : (sheltering live).holds s) (name : String) {value : Expr}
    (hvalue : value.CallFree s.frame.scope.layout live) {body : Build Expr}
    (hbody : ∀ p t, (sheltering (p :: live)).holds t → MakesCallFree (p :: live) t body) :
    MakesCallFree live s (letIn name value body) := by
  obtain ⟨outer, sound, shelters⟩ := hs
  let p : VarId × Nat := (⟨s.supply.nextVar⟩, s.frame.scope.freeSlot)
  let opened := (s.frame.openLet name).run s.supply
  let inner : BuildState := { s with supply := opened.2, frame := opened.1.2 }
  have entered : (sheltering (p :: live)).holds inner :=
    ⟨outer, sound.add name none false, shelters.openLet name s.supply⟩
  have vars : inner.frame.scope.vars = s.frame.scope.vars ++ [_] := rfl
  have declared : p ∈ inner.frame.scope.layout := entered.2.2.known p List.mem_cons_self
  have placed : ((opened.1.2.scope.find? opened.1.1).map (·.slot)).getD 0 = p.2 := by
    obtain ⟨v, found⟩ := Option.isSome_iff_exists.1 (Scope.isSome_find?_iff.2 (List.mem_map_of_mem declared))
    change ((inner.frame.scope.find? p.1).map (·.slot)).getD 0 = p.2
    rw [found]
    exact entered.2.1.slot_eq (Scope.mem_layout_of_find? found).2 declared
  intro result w run
  change letIn name value body s = _ at run
  rw [letIn_run, placed] at run
  rcases ended : body inner with ⟨f | ended', t⟩ <;> rw [ended] at run
  · cases run
  cases run
  obtain ⟨⟨outer', sound', shelters'⟩, ⟨names, more, vars', apart⟩, made⟩ :=
    hbody p inner entered _ t ended
  have fresh := shelters.fresh sound
  have since : t.frame.scope.vars.drop s.frame.scope.openRegion =
      ⟨p.1, name, none, .item, p.2, false⟩ :: more := by
    rw [vars', vars, List.append_assoc]
    exact List.drop_left
  have later : ∀ v ∈ t.frame.scope.vars.drop s.frame.scope.openRegion, ∀ q ∈ live, q.2 ≠ v.slot := by
    rw [since]
    rintro v mem q among
    rcases List.mem_cons.1 mem with rfl | mem
    · exact (fresh q among).2
    · exact apart v mem q (List.mem_cons_of_mem _ among)
  have lead : (sheltering live).leads s { t with frame := t.frame.closeLet s.frame.scope.openRegion } := by
    refine ⟨congrArg List.tail names, t.frame.scope.vars.drop s.frame.scope.openRegion, ?_, later⟩
    rw [since]
    change t.frame.scope.vars = _
    rw [vars', vars, List.append_assoc]
    rfl
  refine ⟨⟨outer', sound'.closeRegion _, shelters.closeLet shelters' (congrArg List.tail names) later⟩,
    lead, fun e same => ?_⟩
  cases ended' with
  | error e => cases same
  | ok b =>
    cases same
    have known : p ∈ t.frame.scope.layout := shelters'.known p List.mem_cons_self
    exact .letIn known fresh (later_callFree lead hvalue) (made b rfl)

theorem call_callFree (hs : (sheltering live).holds s) {name : String} {b : Builtin}
    (named : Builtin.ofName? name = some b) (calls : b.callsBack = false) {args : List Expr}
    (hargs : ∀ e ∈ args, e.CallFree s.frame.scope.layout live) :
    MakesCallFree live s (call name args) := by
  refine .bind (.get hs) fun _ t _ _ same => ?_
  obtain ⟨rfl, rfl⟩ := same
  have resolved : t.registry.resolveCall name args t.span =
      (if args.length = b.arity then .ok (.builtin b args t.span)
        else .error (.arity b.qualifiedName b.arity args.length t.span), t.registry) := by
    unfold Registry.resolveCall
    rw [named]
    dsimp only
    split <;> rfl
  have kept : Sheltered live t (modifyRegistry (·.resolveCall name args t.span)) fun result u =>
      result = (if args.length = b.arity then .ok (.builtin b args t.span)
        else .error (.arity b.qualifiedName b.arity args.length t.span)) ∧ u = t := by
    have ran : modifyRegistry (·.resolveCall name args t.span) t =
        (.ok (.ok (t.registry.resolveCall name args t.span).1),
          { t with registry := (t.registry.resolveCall name args t.span).2 }) := rfl
    rw [resolved] at ran
    exact Law.Keeps.of_eq ran hs ((sheltering live).refl t) ⟨rfl, rfl⟩
  refine .bind kept fun result u hu _ same => ?_
  obtain ⟨rfl, rfl⟩ := same
  split
  · exact .pure hu (.builtin calls hargs)
  · exact Law.Keeps.throw hu

end Build

section

open Build

mutual
theorem Surface.build_callFree : (live : Live) → (own : Option Span) → (x : Surface) → x.callFree = true →
    (s : BuildState) → (sheltering live).holds s → MakesCallFree live s (x.build own)
  | live, _, .datum x, _, s, hs => by
    have drawn : Sheltered live s (draw x.toValue) fun _ _ => True := by
      have same := (Datum.toValue_plain x s.supply).1
      refine Law.Keeps.of_eq rfl ⟨hs.1, hs.2.1.mono (Nat.le_of_eq same.symm), hs.2.2⟩ ?_ trivial
      exact ⟨rfl, [], (List.append_nil _).symm, by simp⟩
    exact .bind drawn fun v t ht _ _ => .pure ht .value
  | _, _, .focus, _, s, hs => .bind (.get hs) fun _ t ht _ _ => .pure ht .focus
  | _, _, .var name, _, s, hs => reference_callFree hs name
  | _, _, .error e, _, s, hs => .pure hs .error
  | live, _, .seq items, free, s, hs =>
    .bind (buildList_callFree live items free s hs) fun es t ht _ hes => .pure ht (.seq hes)
  | live, own, .arith op lhs rhs, free, s, hs => by
    obtain ⟨fl, fr⟩ := Bool.and_eq_true_iff.1 free
    refine .bind (Surface.build_callFree live none lhs fl s hs) fun l t ht _ hl => ?_
    refine .bind (Surface.build_callFree live none rhs fr t ht) fun r u hu htu hr => ?_
    refine .bind (.moveBack hu own) fun _ v hv huv _ => ?_
    refine .bind (.get hv) fun _ w hw hvw _ => ?_
    have later := (sheltering live).trans huv hvw
    exact .pure hw (.arith (later_callFree ((sheltering live).trans htu later) hl)
      (later_callFree later hr))
  | live, own, .compare op lhs rhs, free, s, hs => by
    obtain ⟨fl, fr⟩ := Bool.and_eq_true_iff.1 free
    refine .bind (Surface.build_callFree live none lhs fl s hs) fun l t ht _ hl => ?_
    refine .bind (Surface.build_callFree live none rhs fr t ht) fun r u hu htu hr => ?_
    refine .bind (.moveBack hu own) fun _ v hv huv _ => ?_
    refine .bind (.get hv) fun _ w hw hvw _ => ?_
    have later := (sheltering live).trans huv hvw
    exact .pure hw (.compare (later_callFree ((sheltering live).trans htu later) hl)
      (later_callFree later hr))
  | live, own, .branch cond yes no, free, s, hs => by
    obtain ⟨fc, rest⟩ := Bool.and_eq_true_iff.1 free
    obtain ⟨fy, fn⟩ := Bool.and_eq_true_iff.1 rest
    refine .bind (Surface.build_callFree live none cond fc s hs) fun c t ht _ hc => ?_
    refine .bind (Surface.build_callFree live none yes fy t ht) fun y u hu htu hy => ?_
    refine .bind (Surface.build_callFree live none no fn u hu) fun n v hv huv hn => ?_
    refine .bind (.moveBack hv own) fun _ w hw hvw _ => ?_
    refine .bind (.get hw) fun _ z hz hwz _ => ?_
    have later := (sheltering live).trans hvw hwz
    have since := (sheltering live).trans huv later
    exact .pure hz (.branch (later_callFree ((sheltering live).trans htu since) hc)
      (later_callFree since hy) (later_callFree later hn))
  | live, own, .treat expr type, free, s, hs => by
    refine .bind (Surface.build_callFree live none expr free s hs) fun e t ht _ he => ?_
    refine .bind (.moveBack ht own) fun _ u hu htu _ => ?_
    refine .bind (.get hu) fun _ v hv huv _ => ?_
    exact .pure hv (.treat (later_callFree ((sheltering live).trans htu huv) he))
  | live, _, .letIn name value body, free, s, hs => by
    obtain ⟨fv, fb⟩ := Bool.and_eq_true_iff.1 free
    refine .bind (Surface.build_callFree live none value fv s hs) fun v t ht _ hv => ?_
    exact letIn_callFree ht name hv fun p u hu => Surface.build_callFree (p :: live) none body fb u hu
  | live, own, .call name args, free, s, hs => by
    obtain ⟨fb, fa⟩ := Bool.and_eq_true_iff.1 free
    obtain ⟨b, named, calls⟩ := (Option.any_eq_true ..).1 fb
    refine .bind (buildList_callFree live args fa s hs) fun es t ht _ hes => ?_
    refine .bind (.moveBack ht own) fun _ u hu htu _ => ?_
    exact call_callFree hu named (by simpa using calls) fun e mem => later_callFree htu (hes e mem)
  | live, own, .builtin function args, free, s, hs => by
    obtain ⟨fb, fa⟩ := Bool.and_eq_true_iff.1 free
    refine .bind (buildList_callFree live args fa s hs) fun es t ht _ hes => ?_
    refine .bind (.moveBack ht own) fun _ u hu htu _ => ?_
    refine .bind (.get hu) fun _ v hv huv _ => ?_
    have later := (sheltering live).trans htu huv
    exact .pure hv (.builtin (by simpa using fb) fun e mem => later_callFree later (hes e mem))
  | live, _, .located span inner, free, s, hs => by
    have moved : Sheltered live s (moveTo span) fun _ _ => True :=
      Law.Keeps.of_eq rfl hs ((sheltering live).refl s) trivial
    exact .bind moved fun _ t ht _ _ => Surface.build_callFree live (some span) inner free t ht

theorem buildList_callFree : (live : Live) → (xs : List Surface) → listCallFree xs = true →
    (s : BuildState) → (sheltering live).holds s →
    Sheltered live s (buildList xs) fun es t => ∀ e ∈ es, e.CallFree t.frame.scope.layout live
  | _, [], _, s, hs => .pure hs (by simp)
  | live, x :: xs, free, s, hs => by
    obtain ⟨fx, fxs⟩ := Bool.and_eq_true_iff.1 free
    refine .bind (Surface.build_callFree live none x fx s hs) fun e t ht _ he => ?_
    refine .bind (buildList_callFree live xs fxs t ht) fun es u hu htu hes => ?_
    exact .pure hu (List.forall_mem_cons.2 ⟨later_callFree htu he, hes⟩)
end

end

end QueryFunctions
