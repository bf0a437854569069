import QueryFunctions.Proofs.Build.References
import QueryFunctions.Proofs.Build.State
import QueryFunctions.Proofs.Form.Rewriting

/-! Whatever is built is a draft for the place at hand, and building it meets no fault. -/
namespace QueryFunctions

mutual
/-- Partial applications have their placeholders among their arguments, not at positions of their own. -/
def Surface.named : Surface → Bool
  | .datum _ | .focus | .var _ | .error _ | .literal _ _ => true
  | .seq items => listNamed items
  | .arith _ lhs rhs | .compare _ lhs rhs => lhs.named && rhs.named
  | .branch cond yes no => cond.named && (yes.named && no.named)
  | .treat expr _ => expr.named
  | .letIn _ value body => value.named && body.named
  | .call _ args | .builtin _ args => listNamed args
  | .dynamicCall _ callee args => callee.named && listNamed args
  | .partialCall _ args => optionsNamed args
  | .partialApply target args => target.named && optionsNamed args
  | .partialAt _ _ _ => false
  | .function _ body => body.named
  | .supplied function supplies => function.named && optionsNamed supplies
  | .declare _ body rest => body.named && rest.named
  | .located _ inner => inner.named
termination_by structural x => x

def listNamed : List Surface → Bool
  | [] => true
  | x :: xs => x.named && listNamed xs
termination_by structural x => x

def optionNamed : Option Surface → Bool
  | none => true
  | some x => x.named
termination_by structural x => x

def optionsNamed : List (Option Surface) → Bool
  | [] => true
  | x :: xs => optionNamed x && optionsNamed xs
termination_by structural x => x
end

mutual
theorem Datum.toValue_plain : (x : Datum) → (supply : Supply) →
    (x.toValue.run supply).2.nextVar = supply.nextVar ∧ (x.toValue.run supply).1.Plain
  | .int _, _ => ⟨rfl, fun _ => trivial, fun _ => .int, nofun⟩
  | .bool _, _ => ⟨rfl, fun _ => trivial, fun _ => .bool, nofun⟩
  | .str _, _ => ⟨rfl, fun _ => trivial, fun _ => .str, nofun⟩
  | .seq items, supply => by
    obtain ⟨same, all⟩ := Datum.toValues_plain items supply
    refine ⟨same, fun d => Value.meets_ofItems fun v mem => (all v mem).meets d,
      fun w => Value.formed_ofItems fun v mem => (all v mem).formed w, fun f has => ?_⟩
    obtain ⟨v, mem, has⟩ := has.of_ofItems
    exact (all v mem).builtin f has
  | .builtin b, supply => ⟨rfl, FuncItem.ofBuiltin_plain b supply⟩

theorem Datum.toValues_plain : (xs : List Datum) → (supply : Supply) →
    ((Datum.toValues xs).run supply).2.nextVar = supply.nextVar ∧
      ∀ v ∈ ((Datum.toValues xs).run supply).1, v.Plain
  | [], _ => ⟨rfl, fun _ mem => by cases mem⟩
  | x :: xs, supply => by
    obtain ⟨same, head⟩ := Datum.toValue_plain x supply
    obtain ⟨same', rest⟩ := Datum.toValues_plain xs (x.toValue.run supply).2
    refine ⟨same'.trans same, fun v mem => ?_⟩
    change v ∈ (x.toValue.run supply).1 :: ((Datum.toValues xs).run (x.toValue.run supply).2).1 at mem
    rcases List.mem_cons.1 mem with rfl | mem
    · exact head
    · exact rest v mem
end

namespace Build

variable {exact : Prop} {s : BuildState}

theorem supplies_run {f : Frame} {supply : Supply} (hf : f.Formed supply) (span : Span)
    (captures : List (VarId × VarId)) (joins : ∀ q ∈ captures, q.2 ∈ f.visible) (s : BuildState) :
    ∃ es, (captures.mapM fun q => return (q.1, ← ofFaulty (Expr.varRef f.scope q.2 span)) :
        Build (List (VarId × Expr))) s = (.ok (.ok es), s) ∧
      es.map Prod.fst = captures.map Prod.fst ∧
        (∀ q ∈ es, ∀ r exact around, q.2.Draft r exact (f.place around supply)) ∧
          List.Forall₂ (fun q e => ∃ ref, e = (q.1, .var ref) ∧ ref.id = q.2) captures es := by
  induction captures with
  | nil => exact ⟨[], rfl, rfl, by simp, .nil⟩
  | cons q captures ih =>
    obtain ⟨es, run, keys, drafts, refs⟩ := ih fun x mem => joins x (List.mem_cons_of_mem _ mem)
    obtain ⟨ref, made, seen, known⟩ := hf.varRef (joins q List.mem_cons_self) span
    refine ⟨(q.1, .var ref) :: es, ?_, by simp [keys], List.forall_mem_cons.2 ⟨?_, drafts⟩,
      .cons ⟨ref, rfl, Expr.id_of_varRef made⟩ refs⟩
    · rw [List.mapM_cons, run_bind, made]
      change (captures.mapM _ >>= fun es => pure ((q.1, Expr.var ref) :: es) : Build _) s = _
      rw [run_bind, run]
      rfl
    · exact fun r exact around => .var seen known

theorem function_makes (hs : s.Formed exact) (signature : Signature) {body : Build Expr}
    (hbody : ∀ t : BuildState, t.Formed exact → Makes exact t body) :
    Makes exact s (function signature body) := by
  refine Keeps.bind (Keeps.get hs) fun start t ht _ _ => ?_
  refine Keeps.bind (inFunction_keeps ht signature true hbody) fun p u hu _ hp => ?_
  obtain ⟨params, inner, e⟩ := p
  refine Keeps.bind (Keeps.get hu) fun _ v hv _ same => ?_
  obtain ⟨rfl, rfl⟩ := same
  have frame := hu.frames.each v.frame List.mem_cons_self
  obtain ⟨es, run, keys, supplied, -⟩ := supplies_run frame start.span inner.captures hp.joins v
  have known : Build.Keeps exact v _ fun captures w => captures = es ∧ w = v :=
    Keeps.of_eq run hu (.refl v) ⟨rfl, rfl⟩
  refine Keeps.bind known fun _ v _ _ same => ?_
  obtain ⟨rfl, rfl⟩ := same
  refine Keeps.bind (Keeps.draw hu (Nat.le_refl _)) fun origin x hx hvx _ => Keeps.pure hx ?_
  have le : v.place ≤ x.place := hvx.frame.place_le hvx.supply hvx.claims
  refine .closure rfl ?_ (hp.apart.onto le.claims hp.serves.sound)
    (fun q mem => hvx.holds (supplied q mem _ _ _)) ?_
  · rw [keys]
    exact hp.serves.mono hvx.supply
  · have body := hp.body
    rw [← keys] at body
    exact body.mono hvx.registry (Place.inside_le le.supply le.claims _ _ _)

theorem declare_keeps (hs : s.Formed exact) (signature : Signature) {body : Build Expr}
    (hbody : ∀ t : BuildState, t.Formed exact → Makes exact t body) :
    Keeps exact s (declare signature body) fun _ _ => True := by
  refine Keeps.bind (Keeps.get hs) fun _ t ht _ _ => ?_
  split
  · exact Keeps.throw ht
  · rename_i name _
    refine Keeps.bind (inFunction_keeps ht signature false hbody) fun p u hu htu hp => ?_
    obtain ⟨params, inner, e⟩ := p
    obtain ⟨-, serves, draft⟩ := hp.alone
    refine Keeps.bind (modifyRegistry_keeps hu (hu.functions.inStep.declare_leads serves draft))
      fun result v hv _ _ => ?_
    exact (Keeps.ofExcept hv).mono fun _ _ _ _ _ => trivial

theorem holes_bounds (args : List (Option Expr)) :
    (args.filterMap id).length + (holes args).length = args.length ∧
      ∀ hole ∈ holes args, hole < args.length := by
  refine ⟨?_, fun hole mem => ?_⟩
  · have count : ∀ (args : List (Option Expr)) (first : Nat), (args.filterMap id).length +
        ((args.zipIdx first).filterMap fun q =>
          if q.1.isNone then some q.2 else none).length = args.length := by
      intro args
      induction args with
      | nil => exact fun _ => rfl
      | cons arg args ih =>
        intro first
        have rest := ih (first + 1)
        cases arg with
        | none => exact congrArg Nat.succ rest
        | some e => exact (Nat.succ_add _ _).trans (congrArg Nat.succ rest)
    exact count args 0
  · obtain ⟨⟨arg, position⟩, among, here⟩ := List.mem_filterMap.1 mem
    dsimp only at here
    split at here
    · cases here
      exact (List.getElem?_eq_some_iff.1 (List.mem_zipIdx_iff_getElem?.1 among)).1
    · cases here

theorem partialApply_makes (hs : s.Formed exact) {target : Expr} (htarget : s.Holds exact target)
    {args : List (Option Expr)} (hargs : ∀ e, some e ∈ args → s.Holds exact e) :
    Makes exact s (partialApply target args) := by
  refine Keeps.bind (Keeps.get hs) fun _ t ht hst _ => ?_
  obtain ⟨count, bound⟩ := holes_bounds args
  refine Keeps.pure ht (.partialApply (fun _ hole mem => ?_) (hst.holds htarget) fun e mem =>
    hst.holds (hargs e (by simpa using mem)))
  exact Nat.lt_of_lt_of_eq (bound hole mem) count.symm

theorem resupply_holds {function : Expr} (hfunction : s.Holds exact function)
    {supplies : List (Option Expr)} (hsupplies : ∀ e, some e ∈ supplies → s.Holds exact e) :
    s.Holds exact (resupply function supplies) := by
  unfold resupply
  split
  · rename_i c
    have keys : ((c.captures.zip (supplies ++ .replicate c.captures.length none)).map
        fun q => (q.1.1, q.2.getD q.1.2)).map Prod.fst = c.captures.map Prod.fst := by
      rw [List.map_map]
      have heads : (c.captures.zip (supplies ++ List.replicate c.captures.length none)).map Prod.fst =
          c.captures := List.map_fst_zip (by simp)
      conv_rhs => rw [← heads, List.map_map]
      rfl
    cases hfunction with
    | closure raw serves apart captured body =>
      refine .closure raw ?_ apart (fun q mem => ?_) ?_
      · rw [← keys] at serves
        exact serves
      · obtain ⟨⟨⟨id, old⟩, new⟩, among, rfl⟩ := List.mem_map.1 mem
        obtain ⟨before, given⟩ := List.of_mem_zip among
        cases new with
        | none => exact captured _ before
        | some e => exact hsupplies e (by simpa using given)
      · unfold Closure.placeIn
        rw [keys]
        exact body
  · exact hfunction

end Build

section

variable {exact : Prop} {s : BuildState}

open Build

theorem named_and {a b : Bool} (h : exact → (a && b) = true) : (exact → a = true) ∧ (exact → b = true) :=
  ⟨fun hx => (Bool.and_eq_true_iff.1 (h hx)).1, fun hx => (Bool.and_eq_true_iff.1 (h hx)).2⟩

mutual
theorem Surface.build_makes : (own : Option Span) → (x : Surface) → (exact → x.named = true) →
    (s : BuildState) → s.Formed exact → Makes exact s (x.build own)
  | _, .datum x, _, s, hs => by
    obtain ⟨same, plain⟩ := Datum.toValue_plain x s.supply
    refine Keeps.bind (Keeps.draw hs (Nat.le_of_eq same.symm)) fun v t ht _ drawn => ?_
    obtain ⟨rfl, rfl⟩ := drawn
    exact Keeps.pure ht (.value plain)
  | _, .focus, _, s, hs => by
    refine Keeps.bind (Keeps.get hs) fun _ t ht _ _ => Keeps.pure ht (.focus trivial)
  | _, .var name, _, s, hs => reference_makes hs name
  | _, .error e, _, s, hs => Keeps.pure hs .error
  | _, .seq items, named, s, hs => by
    refine Keeps.bind (buildList_makes items named s hs) fun es t ht _ hes => ?_
    exact Keeps.pure ht (.seq hes)
  | own, .arith op lhs rhs, named, s, hs => by
    obtain ⟨nl, nr⟩ := named_and named
    refine Keeps.bind (Surface.build_makes none lhs nl s hs) fun l t ht _ hl => ?_
    refine Keeps.bind (Surface.build_makes none rhs nr t ht) fun r u hu htu hr => ?_
    refine Keeps.bind (Keeps.moveBack hu own) fun _ v hv huv _ => ?_
    refine Keeps.bind (Keeps.get hv) fun _ w hw hvw _ => ?_
    have later := huv.trans hvw
    exact Keeps.pure hw (.arith ((htu.trans later).holds hl) (later.holds hr))
  | own, .compare op lhs rhs, named, s, hs => by
    obtain ⟨nl, nr⟩ := named_and named
    refine Keeps.bind (Surface.build_makes none lhs nl s hs) fun l t ht _ hl => ?_
    refine Keeps.bind (Surface.build_makes none rhs nr t ht) fun r u hu htu hr => ?_
    refine Keeps.bind (Keeps.moveBack hu own) fun _ v hv huv _ => ?_
    refine Keeps.bind (Keeps.get hv) fun _ w hw hvw _ => ?_
    have later := huv.trans hvw
    exact Keeps.pure hw (.compare ((htu.trans later).holds hl) (later.holds hr))
  | own, .branch cond yes no, named, s, hs => by
    obtain ⟨nc, rest⟩ := named_and named
    obtain ⟨ny, nn⟩ := named_and rest
    refine Keeps.bind (Surface.build_makes none cond nc s hs) fun c t ht _ hc => ?_
    refine Keeps.bind (Surface.build_makes none yes ny t ht) fun y u hu htu hy => ?_
    refine Keeps.bind (Surface.build_makes none no nn u hu) fun n v hv huv hn => ?_
    refine Keeps.bind (Keeps.moveBack hv own) fun _ w hw hvw _ => ?_
    refine Keeps.bind (Keeps.get hw) fun _ z hz hwz _ => ?_
    have later := hvw.trans hwz
    exact Keeps.pure hz (.branch ((htu.trans (huv.trans later)).holds hc)
      ((huv.trans later).holds hy) (later.holds hn))
  | own, .treat expr type, named, s, hs => by
    refine Keeps.bind (Surface.build_makes none expr named s hs) fun e t ht _ he => ?_
    refine Keeps.bind (Keeps.moveBack ht own) fun _ u hu htu _ => ?_
    refine Keeps.bind (Keeps.get hu) fun _ v hv huv _ => ?_
    exact Keeps.pure hv (.treat ((htu.trans huv).holds he))
  | _, .letIn name value body, named, s, hs => by
    obtain ⟨nv, nb⟩ := named_and named
    refine Keeps.bind (Surface.build_makes none value nv s hs) fun v t ht _ hv => ?_
    exact letIn_makes ht name hv fun u hu => Surface.build_makes none body nb u hu
  | own, .call name args, named, s, hs => by
    refine Keeps.bind (buildList_makes args named s hs) fun es t ht _ hes => ?_
    refine Keeps.bind (Keeps.moveBack ht own) fun _ u hu htu _ => ?_
    exact call_makes hu name (htu.all_hold hes)
  | own, .builtin function args, named, s, hs => by
    refine Keeps.bind (buildList_makes args named s hs) fun es t ht _ hes => ?_
    refine Keeps.bind (Keeps.moveBack ht own) fun _ u hu htu _ => ?_
    refine Keeps.bind (Keeps.get hu) fun _ v hv huv _ => ?_
    exact Keeps.pure hv (.builtin ((htu.trans huv).all_hold hes))
  | own, .dynamicCall updating callee args, named, s, hs => by
    obtain ⟨nc, na⟩ := named_and named
    refine Keeps.bind (Surface.build_makes none callee nc s hs) fun c t ht _ hc => ?_
    refine Keeps.bind (buildList_makes args na t ht) fun es u hu htu hes => ?_
    refine Keeps.bind (Keeps.moveBack hu own) fun _ v hv huv _ => ?_
    refine Keeps.bind (Keeps.get hv) fun _ w hw hvw _ => ?_
    have later := huv.trans hvw
    exact Keeps.pure hw (.dynamicCall ((htu.trans later).holds hc) (later.all_hold hes))
  | _, .literal name arity, _, s, hs => literal_makes hs name arity
  | own, .partialCall name args, named, s, hs => by
    refine Keeps.bind (buildOptions_makes args named s hs) fun es t ht _ hes => ?_
    refine Keeps.bind (Keeps.moveBack ht own) fun _ u hu htu _ => ?_
    refine Keeps.bind (literal_makes hu name es.length) fun target v hv huv htarget => ?_
    exact partialApply_makes hv htarget fun e mem => (htu.trans huv).holds (hes e mem)
  | own, .partialApply target args, named, s, hs => by
    obtain ⟨nt, na⟩ := named_and named
    refine Keeps.bind (Surface.build_makes none target nt s hs) fun e t ht _ he => ?_
    refine Keeps.bind (buildOptions_makes args na t ht) fun es u hu htu hes => ?_
    refine Keeps.bind (Keeps.moveBack hu own) fun _ v hv huv _ => ?_
    exact partialApply_makes hv ((htu.trans huv).holds he) fun e mem => huv.holds (hes e mem)
  | own, .partialAt target args holes, named, s, hs => by
    have free : ¬exact := fun hx => by cases named hx
    refine Keeps.bind (Surface.build_makes none target (absurd · free) s hs) fun e t ht _ he => ?_
    refine Keeps.bind (buildList_makes args (absurd · free) t ht) fun es u hu htu hes => ?_
    exact Keeps.pure hu (.partialApply (absurd · free) (htu.holds he) hes)
  | _, .function signature body, named, s, hs =>
    function_makes hs signature fun t ht => Surface.build_makes none body named t ht
  | _, .supplied function supplies, named, s, hs => by
    obtain ⟨nf, ns⟩ := named_and named
    refine Keeps.bind (Surface.build_makes none function nf s hs) fun e t ht _ he => ?_
    refine Keeps.bind (buildOptions_makes supplies ns t ht) fun es u hu htu hes => ?_
    exact Keeps.pure hu (resupply_holds (htu.holds he) hes)
  | _, .declare signature body rest, named, s, hs => by
    obtain ⟨nb, nr⟩ := named_and named
    have declared := declare_keeps hs signature fun t ht => Surface.build_makes none body nb t ht
    exact Keeps.bind (discarded_keeps declared) fun _ t ht _ _ => Surface.build_makes none rest nr t ht
  | _, .located span inner, named, s, hs => by
    refine Keeps.bind (Keeps.moveTo hs span) fun _ t ht _ _ => ?_
    exact Surface.build_makes (some span) inner named t ht

theorem buildList_makes : (xs : List Surface) → (exact → listNamed xs = true) → (s : BuildState) →
    s.Formed exact → Keeps exact s (buildList xs) fun es t => ∀ e ∈ es, t.Holds exact e
  | [], _, s, hs => Keeps.pure hs (by simp)
  | x :: xs, named, s, hs => by
    obtain ⟨nx, nxs⟩ := named_and named
    refine Keeps.bind (Surface.build_makes none x nx s hs) fun e t ht _ he => ?_
    refine Keeps.bind (buildList_makes xs nxs t ht) fun es u hu htu hes => ?_
    exact Keeps.pure hu (List.forall_mem_cons.2 ⟨htu.holds he, hes⟩)

theorem buildOption_makes : (x : Option Surface) → (exact → optionNamed x = true) → (s : BuildState) →
    s.Formed exact → Keeps exact s (buildOption x) fun e t => ∀ made, e = some made → t.Holds exact made
  | none, _, s, hs => Keeps.pure hs (by simp)
  | some x, named, s, hs => by
    refine Keeps.bind (Surface.build_makes none x named s hs) fun e t ht _ he => ?_
    refine Keeps.pure ht fun made eq => ?_
    cases eq
    exact he

theorem buildOptions_makes : (xs : List (Option Surface)) → (exact → optionsNamed xs = true) →
    (s : BuildState) → s.Formed exact →
    Keeps exact s (buildOptions xs) fun es t => ∀ e, some e ∈ es → t.Holds exact e
  | [], _, s, hs => Keeps.pure hs (by simp)
  | x :: xs, named, s, hs => by
    obtain ⟨nx, nxs⟩ := named_and named
    refine Keeps.bind (buildOption_makes x nx s hs) fun e t ht _ he => ?_
    refine Keeps.bind (buildOptions_makes xs nxs t ht) fun es u hu htu hes => ?_
    refine Keeps.pure hu fun made mem => ?_
    rcases List.mem_cons.1 mem with eq | mem
    · exact htu.holds (he made eq.symm)
    · exact hes made mem
end

end

end QueryFunctions
