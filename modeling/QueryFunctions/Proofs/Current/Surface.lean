import Mathlib.Data.List.Flatten
import Mathlib.Data.List.Perm.Subperm
import QueryFunctions.Proofs.Current.Building
import QueryFunctions.Proofs.Current.Functions
import QueryFunctions.Proofs.Query.Units

/-! Surface expressions are built into staged code. Units are staged when they leave the builder, and
current from then on. -/
namespace QueryFunctions

variable {s t u : BuildState}

theorem listLets_eq_flatMap (es : List Expr) : listLets es = es.flatMap Expr.lets := by
  induction es with
  | nil => rfl
  | cons e es ih => rw [listLets, ih, List.flatMap_cons]

theorem BuildState.Builds.of_subperm {es es' : List Expr} (h : s.Builds t es) (some : es'.Subperm es) :
    s.Builds t es' := by
  obtain ⟨mid, perm, sub⟩ := some
  have fewer : (listLets es').Subperm (listLets es) := by
    rw [listLets_eq_flatMap, listLets_eq_flatMap]
    exact ⟨mid.flatMap Expr.lets, perm.flatMap_right _, sub.flatMap _⟩
  refine ⟨fun e mem => h.staged e (sub.subset (perm.mem_iff.2 mem)), ?_, fun id mem => ?_⟩
  · obtain ⟨kept, perm, sub⟩ := fewer
    exact perm.nodup_iff.1 (h.distinct.sublist sub)
  · exact h.lets id (fewer.subset mem)

theorem resupplied_subperm (old : List (VarId × Expr)) (given : List (Option Expr)) :
    (((old.zip given).map fun q => (q.1.1, q.2.getD q.1.2)).map Prod.snd).Subperm
      (old.map Prod.snd ++ given.filterMap id) := by
  induction old generalizing given with
  | nil => exact (List.nil_sublist _).subperm
  | cons q old ih =>
    cases given with
    | nil => exact (List.nil_sublist _).subperm
    | cons new given =>
      cases new with
      | none => exact (List.subperm_cons q.2).2 (ih given)
      | some e =>
        have here : (e :: ((old.zip given).map fun q => (q.1.1, q.2.getD q.1.2)).map Prod.snd).Subperm
            (e :: (old.map Prod.snd ++ given.filterMap id)) := (List.subperm_cons e).2 (ih given)
        exact (here.trans List.perm_middle.symm.subperm).trans (List.sublist_cons_self _ _).subperm

namespace Build

theorem call_stages (hs : s.Ready) (name : String) {start : BuildState} {args : List Expr}
    (hargs : start.Builds s args) : Stages s (call name args) fun e t => start.Builds t [e] := by
  refine Stages.bind (Stages.get hs) fun _ t _ _ same => ?_
  obtain ⟨rfl, rfl⟩ := same
  have leads := t.registry.resolveCall_leads False t.supply name args t.span
  have functions := hs.functions.resolveCall name args t.span
  refine Stages.bind (modifyRegistry_stages hs leads functions) fun result u hu htu same => ?_
  obtain ⟨rfl, rfl⟩ := same
  refine (Stages.ofExcept hu).mono fun e v _ _ ended => ?_
  obtain ⟨made, rfl⟩ := ended
  have later := hargs.later htu
  unfold Registry.resolveCall at made
  split at made
  · split at made
    · cases made
      exact .node later rfl rfl
    · cases made
  · cases made
    exact .node later rfl rfl

theorem literal_stages (hs : s.Ready) (name : String) (arity : Nat) :
    Stages s (literal name arity) fun e t => s.Builds t [e] := by
  refine Stages.bind (Stages.get hs) fun _ t _ _ same => ?_
  obtain ⟨rfl, rfl⟩ := same
  obtain ⟨grows, leads, -⟩ := t.registry.resolveLiteral_draft False t.supply name arity t.span
  obtain ⟨functions, staged⟩ := t.registry.resolveLiteral_staged t.supply name arity t.span
  refine Stages.bind (Stages.draw hs grows) fun p u hu _ same => ?_
  obtain ⟨rfl, rfl⟩ := same
  let v : BuildState := { t with
    supply := ((t.registry.resolveLiteral name arity t.span).run t.supply).2
    registry := ((t.registry.resolveLiteral name arity t.span).run t.supply).1.2 }
  have hv : v.Ready :=
    ⟨⟨hu.formed.frames, (leads _).drafts hu.formed.functions⟩, hu.pins, (functions hs.functions).mono grows⟩
  have grown : { t with supply := v.supply }.Grows v :=
    ⟨Nat.le_refl _, (leads t.supply).recalls, .refl _, .inl⟩
  refine Stages.bind (Stages.modify hv grown) fun _ w hw _ same => ?_
  subst same
  refine (Stages.ofExcept hw).mono fun e x _ _ ended => ?_
  obtain ⟨made, rfl⟩ := ended
  obtain ⟨here, none⟩ := staged e made v.frame.scope.Lists (· ∈ v.frame.visible)
  exact .leaf here none

theorem partialApply_stages (hs : s.Ready) {start : BuildState} {target : Expr}
    {args : List (Option Expr)} (parts : start.Builds s (target :: args.filterMap id)) :
    Stages s (partialApply target args) fun e t => start.Builds t [e] := by
  refine Stages.bind (Stages.get hs) fun _ t ht _ same => Stages.pure ht ?_
  obtain ⟨rfl, rfl⟩ := same
  exact .node parts rfl rfl

theorem resupply_builds {function : Expr} (hfunction : s.Builds t [function])
    {supplies : List (Option Expr)} (hsupplies : t.Builds u (supplies.filterMap id)) (hst : s.Grows t)
    (htu : t.Grows u) : s.Builds u [resupply function supplies] := by
  unfold resupply
  split
  · rename_i c
    let given := supplies ++ List.replicate c.captures.length none
    let supplied := (c.captures.zip given).map fun q => (q.1.1, q.2.getD q.1.2)
    have keys : supplied.map Prod.fst = c.captures.map Prod.fst := by
      have heads : (c.captures.zip given).map Prod.fst = c.captures := List.map_fst_zip (by simp [given])
      conv_rhs => rw [← heads, List.map_map]
      exact List.map_map
    have lets : ∀ c : Closure, listLets [.closure c] = listLets (c.captures.map Prod.snd) := by
      intro c
      rw [listLets, listLets, List.append_nil, Expr.lets, Closure.lets_eq, suppliesLets_eq]
    obtain ⟨raw, fits, captures, body, apart⟩ := Expr.staged_closure.1 hfunction.one_staged
    have old : s.Builds t (c.captures.map Prod.snd) :=
      ⟨List.forall_mem_map.2 captures, lets c ▸ hfunction.distinct,
        lets c ▸ hfunction.lets⟩
    have new : t.Builds u (given.filterMap id) := by
      rw [List.filterMap_append, List.filterMap_replicate_of_none rfl, List.append_nil]
      exact hsupplies
    have all : s.Builds u (supplied.map Prod.snd) :=
      (old.append hst new htu).of_subperm (resupplied_subperm c.captures given)
    refine ⟨fun e mem => List.mem_singleton.1 mem ▸ Expr.staged_closure.2 ?_, ?_, ?_⟩
    · have own : ∀ id, Closure.Own { c with captures := supplied } id ↔ c.Own id := by
        intro id
        unfold Closure.Own
        rw [keys]
      refine ⟨raw, ⟨fits.sound.mono htu.supply, fits.params, fun q mem => ?_⟩,
        fun q mem => all.staged q.2 (List.mem_map_of_mem mem),
        body.mono htu.supply id fun {id} => (own id).2, apart.mono htu.supply fun id => (own id).1⟩
      obtain ⟨r, among, same⟩ :=
        List.mem_map.1 (keys ▸ List.mem_map_of_mem mem : q.1 ∈ c.captures.map Prod.fst)
      exact same ▸ fits.keys r among
    · exact lets { c with captures := supplied } ▸ all.distinct
    · exact lets { c with captures := supplied } ▸ all.lets
  · exact hfunction.later htu

end Build

section

open Build

mutual
theorem Surface.build_stages : (own : Option Span) → (x : Surface) → (s : BuildState) → s.Ready →
    Stages s (x.build own) fun e t => s.Builds t [e]
  | _, .datum x, s, hs => by
    obtain ⟨same, plain⟩ := Datum.toValue_plain x s.supply
    refine Stages.bind (Stages.draw hs (Nat.le_of_eq same.symm)) fun v t ht _ drawn => ?_
    obtain ⟨rfl, rfl⟩ := drawn
    exact Stages.pure ht (.leaf (.value plain.builtin) rfl)
  | _, .focus, s, hs => by
    exact Stages.bind (Stages.get hs) fun _ t ht _ _ => Stages.pure ht (.node .nil rfl rfl)
  | _, .var name, s, hs => reference_stages hs name
  | _, .error e, s, hs => Stages.pure hs (.node .nil rfl rfl)
  | _, .seq items, s, hs => by
    refine Stages.bind (buildList_stages items s hs) fun es t ht _ hes => ?_
    exact Stages.pure ht (.node hes rfl rfl)
  | own, .arith op lhs rhs, s, hs => by
    refine Stages.bind (Surface.build_stages none lhs s hs) fun l t ht hst hl => ?_
    refine Stages.bind (Surface.build_stages none rhs t ht) fun r u hu htu hr => ?_
    refine Stages.bind (Stages.moveBack hu own) fun _ v hv huv _ => ?_
    refine Stages.bind (Stages.get hv) fun _ w hw hvw _ => ?_
    exact Stages.pure hw (.node ((hl.append hst hr htu).later (huv.trans hvw)) rfl rfl)
  | own, .compare op lhs rhs, s, hs => by
    refine Stages.bind (Surface.build_stages none lhs s hs) fun l t ht hst hl => ?_
    refine Stages.bind (Surface.build_stages none rhs t ht) fun r u hu htu hr => ?_
    refine Stages.bind (Stages.moveBack hu own) fun _ v hv huv _ => ?_
    refine Stages.bind (Stages.get hv) fun _ w hw hvw _ => ?_
    exact Stages.pure hw (.node ((hl.append hst hr htu).later (huv.trans hvw)) rfl rfl)
  | own, .branch cond yes no, s, hs => by
    refine Stages.bind (Surface.build_stages none cond s hs) fun c t ht hst hc => ?_
    refine Stages.bind (Surface.build_stages none yes t ht) fun y u hu htu hy => ?_
    refine Stages.bind (Surface.build_stages none no u hu) fun n v hv huv hn => ?_
    refine Stages.bind (Stages.moveBack hv own) fun _ w hw hvw _ => ?_
    refine Stages.bind (Stages.get hw) fun _ x hx hwx _ => ?_
    have parts := hc.append hst (hy.append htu hn huv) (htu.trans huv)
    exact Stages.pure hx (.node (parts.later (hvw.trans hwx)) rfl rfl)
  | own, .treat expr type, s, hs => by
    refine Stages.bind (Surface.build_stages none expr s hs) fun e t ht _ he => ?_
    refine Stages.bind (Stages.moveBack ht own) fun _ u hu htu _ => ?_
    refine Stages.bind (Stages.get hu) fun _ v hv huv _ => ?_
    exact Stages.pure hv (.node (he.later (htu.trans huv)) rfl rfl)
  | _, .letIn name value body, s, hs => by
    have made := Stages.and (Surface.build_makes none value False.elim s hs.formed)
      (Surface.build_stages none value s hs)
    refine Stages.bind made fun v t ht hst hv => ?_
    exact letIn_stages ht name hst hv.1 hv.2 (Surface.build_makes none body False.elim)
      (Surface.build_stages none body)
  | own, .call name args, s, hs => by
    refine Stages.bind (buildList_stages args s hs) fun es t ht _ hes => ?_
    refine Stages.bind (Stages.moveBack ht own) fun _ u hu htu _ => ?_
    exact call_stages hu name (hes.later htu)
  | own, .builtin function args, s, hs => by
    refine Stages.bind (buildList_stages args s hs) fun es t ht _ hes => ?_
    refine Stages.bind (Stages.moveBack ht own) fun _ u hu htu _ => ?_
    refine Stages.bind (Stages.get hu) fun _ v hv huv _ => ?_
    exact Stages.pure hv (.node (hes.later (htu.trans huv)) rfl rfl)
  | own, .dynamicCall updating callee args, s, hs => by
    refine Stages.bind (Surface.build_stages none callee s hs) fun c t ht hst hc => ?_
    refine Stages.bind (buildList_stages args t ht) fun es u hu htu hes => ?_
    refine Stages.bind (Stages.moveBack hu own) fun _ v hv huv _ => ?_
    refine Stages.bind (Stages.get hv) fun _ w hw hvw _ => ?_
    exact Stages.pure hw (.node ((hc.append hst hes htu).later (huv.trans hvw)) rfl rfl)
  | _, .literal name arity, s, hs => literal_stages hs name arity
  | own, .partialCall name args, s, hs => by
    refine Stages.bind (buildOptions_stages args s hs) fun es t ht hst hes => ?_
    refine Stages.bind (Stages.moveBack ht own) fun _ u hu htu _ => ?_
    refine Stages.bind (literal_stages hu name es.length) fun target v hv huv htarget => ?_
    -- the arguments are built before the target
    exact partialApply_stages hv ((hes.later htu).prepend (hst.trans htu) htarget huv)
  | own, .partialApply target args, s, hs => by
    refine Stages.bind (Surface.build_stages none target s hs) fun e t ht hst he => ?_
    refine Stages.bind (buildOptions_stages args t ht) fun es u hu htu hes => ?_
    refine Stages.bind (Stages.moveBack hu own) fun _ v hv huv _ => ?_
    exact partialApply_stages hv ((he.append hst hes htu).later huv)
  | own, .partialAt target args holes, s, hs => by
    refine Stages.bind (Surface.build_stages none target s hs) fun e t ht hst he => ?_
    refine Stages.bind (buildList_stages args t ht) fun es u hu htu hes => ?_
    exact Stages.pure hu (.node (he.append hst hes htu) rfl rfl)
  | _, .function signature body, s, hs =>
    function_stages hs signature (Surface.build_makes none body False.elim)
      (Surface.build_stages none body)
  | _, .supplied function supplies, s, hs => by
    refine Stages.bind (Surface.build_stages none function s hs) fun e t ht hst he => ?_
    refine Stages.bind (buildOptions_stages supplies t ht) fun es u hu htu hes => ?_
    exact Stages.pure hu (resupply_builds he hes hst htu)
  | _, .declare signature body rest, s, hs => by
    have declared := declare_stages hs signature (Surface.build_makes none body False.elim)
      (Surface.build_stages none body)
    refine Stages.bind (discarded_keeps declared) fun _ t ht hst _ => ?_
    exact (Surface.build_stages none rest t ht).mono fun _ u _ _ made => made.mono hst.supply (.refl u)
  | _, .located span inner, s, hs => by
    refine Stages.bind (Stages.moveTo hs span) fun _ t ht hst _ => ?_
    exact (Surface.build_stages (some span) inner t ht).mono fun _ u _ _ made =>
      made.mono hst.supply (.refl u)

theorem buildList_stages : (xs : List Surface) → (s : BuildState) → s.Ready →
    Stages s (buildList xs) fun es t => s.Builds t es
  | [], _, hs => Stages.pure hs .nil
  | x :: xs, s, hs => by
    refine Stages.bind (Surface.build_stages none x s hs) fun e t ht hst he => ?_
    refine Stages.bind (buildList_stages xs t ht) fun es u hu htu hes => ?_
    exact Stages.pure hu (he.append hst hes htu)

theorem buildOption_stages : (x : Option Surface) → (s : BuildState) → s.Ready →
    Stages s (buildOption x) fun e t => s.Builds t e.toList
  | none, _, hs => Stages.pure hs .nil
  | some x, s, hs => by
    refine Stages.bind (Surface.build_stages none x s hs) fun e t ht _ he => ?_
    exact Stages.pure ht he

theorem buildOptions_stages : (xs : List (Option Surface)) → (s : BuildState) → s.Ready →
    Stages s (buildOptions xs) fun es t => s.Builds t (es.filterMap id)
  | [], _, hs => Stages.pure hs .nil
  | x :: xs, s, hs => by
    refine Stages.bind (buildOption_stages x s hs) fun e t ht hst he => ?_
    refine Stages.bind (buildOptions_stages xs t ht) fun es u hu htu hes => ?_
    have both := he.append hst hes htu
    cases e <;> exact Stages.pure hu both
end

end

/-- An expression that needs no variable from outside is staged in the frame at hand. -/
structure BuildState.Roots (s : BuildState) (e : Expr) : Prop where
  staged : e.Staged s.supply.nextVar s.frame.scope.Lists fun _ => False
  apart : Apart s.supply.nextVar (fun _ => False) e.lets

namespace BuildState

variable {e : Expr}

theorem Roots.mono (h : s.Roots e) (grows : s.Grows t) : t.Roots e :=
  ⟨h.staged.mono grows.supply grows.frame.keeps.lists id, h.apart.mono grows.supply fun _ => id⟩

theorem Builds.roots (h : s.Builds t [e]) (grows : ({} : BuildState).Grows t) (ht : t.Ready) :
    t.Roots e := by
  obtain ⟨-, le⟩ := (Frame.Begins.empty false {}).ends grows.frame ht.frame t.outer
  rw [ht.frame.closed grows.frame.capturing] at le
  have bare : ∀ {id}, id ∈ t.frame.visible → False := fun seen => (le.bound seen).elim nofun nofun
  exact ⟨h.one_staged.mono (Nat.le_refl _) (fun here => here) bare, h.apart ht.frame.sound nofun⟩

theorem Ready.empty : ({} : BuildState).Ready :=
  ⟨(BuildStep.empty_formed False).1,
    fun f mem => List.mem_singleton.1 mem ▸ (Frame.Begins.empty false {}).pins,
    fun id e body found => by simp [Registry.find?] at found⟩

theorem Roots.empty : ({} : BuildState).Roots .empty := by
  refine ⟨.value fun f has => ?_, .nil⟩
  cases has with
  | member none => cases none

end BuildState

namespace BuildStep

variable {main e : Expr}

theorem run_staged {step : BuildStep} (ran : step.run s main = .ok (t, e)) (hs : s.Ready)
    (begun : ({} : BuildState).Grows s) (hmain : s.Roots main) : t.Ready ∧ s.Grows t ∧ t.Roots e := by
  cases step with
  | moveTo span =>
    cases ran
    have grows : s.Grows { s with span } := ⟨Nat.le_refl _, .refl _, .refl _, .inl⟩
    exact ⟨⟨⟨hs.formed.frames, hs.formed.functions⟩, hs.pins, hs.functions⟩, grows, hmain.mono grows⟩
  | declare signature body =>
    have kept := Build.declare_stages hs signature (Surface.build_makes none body False.elim)
      (Surface.build_stages none body)
    change stagingContract.Admits s _ (Build.declare signature (body.build none) s) at kept
    unfold run Build.outcome at ran
    dsimp only at ran
    generalize Build.declare signature (body.build none) s = outcome at kept ran
    obtain ⟨f | e | id, u⟩ := outcome
    all_goals cases ran
    · exact ⟨kept.1, kept.2.1, hmain.mono kept.2.1⟩
    · exact ⟨kept.1, kept.2.1, hmain.mono kept.2.1⟩
  | main expr =>
    have kept := Surface.build_stages none expr s hs
    change stagingContract.Admits s _ (expr.build none s) at kept
    unfold run Build.outcome at ran
    dsimp only at ran
    generalize expr.build none s = outcome at kept ran
    obtain ⟨f | e | made, u⟩ := outcome
    all_goals cases ran
    · exact ⟨kept.1, kept.2.1, hmain.mono kept.2.1⟩
    · exact ⟨kept.1, kept.2.1, kept.2.2.roots (begun.trans kept.2.1) kept.1⟩

theorem foldlM_staged (steps : List BuildStep)
    (ran : steps.foldlM (fun (s, main) step => BuildStep.run step s main) (s, main) =
      Except.ok (t, e)) (hs : s.Ready) (begun : ({} : BuildState).Grows s) (hmain : s.Roots main) :
    t.Ready ∧ t.Roots e := by
  induction steps generalizing s main with
  | nil =>
    cases ran
    exact ⟨hs, hmain⟩
  | cons step steps ih =>
    rw [List.foldlM_cons] at ran
    cases first : step.run s main with
    | error =>
      simp only [first, bind, Except.bind] at ran
      cases ran
    | ok p =>
      simp only [first, bind, Except.bind] at ran
      obtain ⟨hu, grows, hp⟩ := run_staged first hs begun hmain
      exact ih ran hu (begun.trans grows) hp

end BuildStep

namespace Query

theorem staged_of_build {options : Options} {requests : List BuildStep} {q : Query}
    (made : build options requests = .ok q) : q.Staged := by
  unfold build at made
  cases ran : requests.foldlM (fun (s, main) step => BuildStep.run step s main) (({} : BuildState), .empty)
    with
  | error =>
    rw [ran] at made
    cases made
  | ok p =>
    rw [ran] at made
    cases made
    obtain ⟨ready, roots⟩ := BuildStep.foldlM_staged requests ran .empty (.refl _) .empty
    refine ⟨rfl, ready.frame.sound, fun f e found => ?_, roots.staged, roots.apart⟩
    have draft := ready.formed.functions.entries f e found
    refine ⟨draft.scope.sound, fun body present => ?_, fun body _ present =>
      ready.functions f e body found present, fun going => absurd (draft.pending.symm.trans going) nofun⟩
    exact (ready.functions f e body found present).1.current (Nat.le_refl _)

end Query

end QueryFunctions
