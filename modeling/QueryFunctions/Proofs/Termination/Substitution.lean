import QueryFunctions.Proofs.Law.Compiling
import QueryFunctions.Compile.Substitution
import QueryFunctions.Proofs.Termination.Tame

/-! Computations with a budget that settle: from some budget on, they come to one and the same end,
whatever else they depend on. Substitution settles and adds no weight, if the simplifier settles on all
code that is light enough. Around an expanded body stand the lets of its arguments, which do not refer to
the variables of the body. -/
namespace QueryFunctions

namespace Contract

variable {ι ρ σ α β : Type} {c c' : Contract σ} {r : ρ} {s s' : σ}

/-- Started in `s`, the computation has one end for all large budgets and all `i`, which is as the
contract asks. -/
def Settles (c : Contract σ) (r : ρ) (s : σ) (act : ι → Nat → Computation ρ σ α)
    (post : α → σ → Prop) : Prop :=
  ∃ least outcome, c.Admits s post outcome ∧ ∀ i n, least ≤ n → act i n r s = outcome

namespace Settles

variable {act : ι → Nat → Computation ρ σ α} {post : α → σ → Prop}

theorem of_keeps {act : Computation ρ σ α} (kept : c.Keeps r s act post) :
    c.Settles r s (fun (_ : ι) _ => act) post := ⟨0, act r s, kept, fun _ _ _ => rfl⟩

theorem through {act' : ι → Nat → Computation ρ σ β} {post' : β → σ → Prop}
    (h : c.Settles r s act post)
    (make : Except Fault (Except QueryError α) × σ → Except Fault (Except QueryError β) × σ)
    (run : ∀ i n, act' i n r s' = make (act i n r s))
    (admitted : ∀ p, c.Admits s post p → c'.Admits s' post' (make p)) :
    c'.Settles r s' act' post' := by
  obtain ⟨least, outcome, admits, same⟩ := h
  exact ⟨least, make outcome, admitted outcome admits, fun i n le => by rw [run, same i n le]⟩

theorem mono {post' : α → σ → Prop} (h : c.Settles r s act post)
    (weaker : ∀ a t, c.holds t → c.leads s t → post a t → post' a t) : c.Settles r s act post' :=
  h.through id (fun _ _ => rfl) fun _ admits => Admits.mono (c.refl s) admits weaker

theorem congr {act' : ι → Nat → Computation ρ σ α} (h : c.Settles r s act post)
    (same : ∀ i n, act' i n r s = act i n r s) : c.Settles r s act' post :=
  h.through id same fun _ admits => admits

theorem after {act' : ι → Nat → Computation ρ σ α} (h : c.Settles r s' act post)
    (run : ∀ i n, act' i n r s = act i n r s') (leads : c.leads s s') : c.Settles r s act' post :=
  h.through id run fun _ admits => Admits.mono leads admits fun _ _ _ _ h => h

theorem spend {act' : ι → Nat → Computation ρ σ α} (h : c.Settles r s act post)
    (same : ∀ i n, act' i (n + 1) r s = act i n r s) : c.Settles r s act' post := by
  obtain ⟨least, outcome, admits, settled⟩ := h
  refine ⟨least + 1, outcome, admits, fun i n le => ?_⟩
  obtain ⟨m, rfl⟩ : ∃ m, n = m + 1 := ⟨n - 1, by omega⟩
  rw [same, settled i m (by omega)]

theorem bind {next : ι → Nat → α → Computation ρ σ β} {mid : α → σ → Prop} {post : β → σ → Prop}
    (first : c.Settles r s act mid)
    (second : ∀ a t, c.holds t → c.leads s t → mid a t →
      c.Settles r t (fun i n => next i n a) post) :
    c.Settles r s (fun i n => act i n >>= next i n) post := by
  obtain ⟨least, outcome, admits, settled⟩ := first
  obtain ⟨f | e | a, t⟩ := outcome
  · refine ⟨least, (.error f, t), admits, fun i n le => ?_⟩
    dsimp only
    rw [Computation.run_bind, settled i n le]
  · refine ⟨least, (.ok (.error e), t), admits, fun i n le => ?_⟩
    dsimp only
    rw [Computation.run_bind, settled i n le]
  · obtain ⟨least', outcome', admits', settled'⟩ := second a t admits.1 admits.2.1 admits.2.2
    refine ⟨max least least', outcome', Admits.mono admits.2.1 admits' fun _ _ _ _ h => h,
      fun i n le => ?_⟩
    dsimp only
    rw [Computation.run_bind, settled i n (Nat.le_trans (Nat.le_max_left _ _) le)]
    exact settled' i n (Nat.le_trans (Nat.le_max_right _ _) le)

theorem pure {a : α} (hs : c.holds s) (ha : post a s) :
    c.Settles r s (fun (_ : ι) _ => (Pure.pure a : Computation ρ σ α)) post := of_keeps (.pure hs ha)

theorem keeps_bind {act : Computation ρ σ α} {next : ι → Nat → α → Computation ρ σ β}
    {mid : α → σ → Prop} {post : β → σ → Prop} (first : c.Keeps r s act mid)
    (second : ∀ a t, c.holds t → c.leads s t → mid a t →
      c.Settles r t (fun i n => next i n a) post) :
    c.Settles r s (fun i n => act >>= next i n) post := bind (of_keeps first) second

theorem refuse {e : QueryError} {next : ι → Nat → PUnit → Computation ρ σ α} {post : α → σ → Prop}
    (hs : c.holds s) (raised : c.raises e) : c.Settles r s
      (fun i n => (MonadExcept.throw e : Computation ρ σ PUnit) >>= next i n) post := by
  have thrown : c.Keeps r s (MonadExcept.throw e : Computation ρ σ PUnit) fun _ _ => False :=
    .throw hs raised
  exact keeps_bind thrown fun _ _ _ _ none => none.elim

theorem attempt (h : c.Settles r s act post) :
    c.Settles r s (fun i n => (fun r s => ((act i n r s).1.map .ok, (act i n r s).2) :
      Computation ρ σ (Except QueryError α))) fun result t =>
        (∀ a, result = .ok a → post a t) ∧ ∀ e, result = .error e → c.raises e :=
  h.through (fun p => (p.1.map .ok, p.2)) (fun _ _ => rfl) fun p admits => by
    have kept : c.Keeps r s (fun _ _ => p : Computation ρ σ α) post := admits
    exact kept.attempt

theorem forM {f : ι → Nat → β → Computation ρ σ PUnit}
    (each : ∀ b s, c.holds s → c.Settles r s (fun i n => f i n b) fun _ _ => True) :
    ∀ (bs : List β) (s : σ), c.holds s → c.Settles r s (fun i n => bs.forM (f i n)) fun _ _ => True
  | [], _, hs => pure hs trivial
  | b :: bs, s, hs => bind (each b s hs) fun _ t ht _ _ => forM each bs t ht

theorem inScope {c : Contract CompileState} {o : Options} {s : CompileState} {scope : Scope}
    {act : ι → Nat → Compile α} {post : α → CompileState → Prop}
    (h : c.Settles o { s with scope } act post)
    (holds : ∀ t scope, c.holds t → c.holds { t with scope })
    (leads : ∀ t u scope scope', c.leads { t with scope } u → c.leads t { u with scope := scope' }) :
    c.Settles o s (fun i n => Compile.inScope scope (act i n)) fun x t =>
      (∀ a, x.1 = .ok a → post a { t with scope := x.2 }) ∧ ∀ e, x.1 = .error e → c.raises e := by
  refine h.through (fun p => (p.1.map fun r => .ok (r, p.2.scope), { p.2 with scope := s.scope }))
    (fun _ _ => rfl) fun p admits => ?_
  obtain ⟨f | e | a, t⟩ := p
  · exact ⟨leads s t scope s.scope admits.1, admits.2⟩
  · exact ⟨holds t s.scope admits.1, leads s t scope s.scope admits.2.1, by rintro _ ⟨⟩,
      by rintro _ ⟨⟩; exact admits.2.2⟩
  · exact ⟨holds t s.scope admits.1, leads s t scope s.scope admits.2.1,
      by rintro _ ⟨⟩; exact admits.2.2, by rintro _ ⟨⟩⟩

end Settles

end Contract

open Contract

/-- While code is simplified the registry stays as it is, and nothing but identities is used up. -/
def simplifyContract (r : Registry) : Contract CompileState where
  holds s := s.registry = r
  leads s t := s.supply.nextVar ≤ t.supply.nextVar ∧ t.registry = s.registry
  refl _ := ⟨Nat.le_refl _, rfl⟩
  trans first second := ⟨Nat.le_trans first.1 second.1, second.2.trans first.2⟩
  raises _ := True
  faults f := f ≠ .budget

/-- Code for the expansion of the closures `inner`, within lets of variables drawn since `fresh` for what
stood outside, where only the closures `outer` are expanded. -/
inductive Expr.Layered (d : Terms) (outer inner : List Origin) (fresh n : Nat) : Expr → Prop
  | code {e} : e.Tame d inner n → Layered d outer inner fresh n e
  | letIn {id slot bound body} : fresh ≤ id.index → bound.Tame d outer fresh →
    Layered d outer inner fresh n body → Layered d outer inner fresh n (.letIn id slot bound body)

/-- The simplifier settles on all code of that layer that weighs less than `limit`, and adds no weight.
It does no more than fold a check, whatever is checked. -/
structure SimplifierSettles {ι : Type} (d : Terms) (r : Registry) (o : Options) (inner : List Origin)
    (limit : Weight) (simplify : ι → Nat → Expr → Compile Expr) : Prop where
  layered : ∀ (outer : List Origin) (fresh : Nat) (e : Expr) (s : CompileState), outer ⊆ inner →
    fresh ≤ s.supply.nextVar → s.registry = r → e.Layered d outer inner fresh s.supply.nextVar →
    (e.weight d.origins).IsDershowitzMannaLT limit →
    (simplifyContract r).Settles o s (fun i n => simplify i n e) fun e' t =>
      e'.Layered d outer inner fresh t.supply.nextVar ∧
        (e'.weight d.origins).Lighter (e.weight d.origins)
  treat : ∀ (e : Expr) (type : SeqType) (span : Span) (s : CompileState), s.registry = r →
    (simplifyContract r).Settles o s (fun i n => simplify i n (.treat e type span)) fun e' _ =>
      e' = e.foldTreat type span

variable {d : Terms} {r : Registry} {o : Options} {outer inner : List Origin} {limit : Weight}
  {fresh n m : Nat} {s : CompileState}

namespace Expr

variable {e e' : Expr}

theorem Layered.later (h : e.Layered d outer inner fresh n) (le : n ≤ m) :
    e.Layered d outer inner fresh m := by
  induction h with
  | code he => exact .code (he.later le)
  | letIn since bound _ ih => exact .letIn since bound ih

theorem Layered.tame (h : e.Layered d outer inner fresh n) (within : outer ⊆ inner) (le : fresh ≤ n) :
    e.Tame d outer n := by
  induction h with
  | code he => exact he.mono (.refl d) within (Nat.le_refl _)
  | letIn _ bound _ ih =>
    refine tame_iff.2 ⟨⟨trivial, nofun⟩, List.forall_mem_cons.2 ⟨bound.later le, ?_⟩⟩
    exact List.forall_mem_singleton.2 ih

structure Below (d : Terms) (around : List Origin) (n : Nat) (limit : Weight) (e : Expr) : Prop where
  tame : e.Tame d around n
  light : (e.weight d.origins).IsDershowitzMannaLT limit

theorem Below.part (h : e.Below d inner n limit) {p : Expr} (mem : p ∈ e.parts) :
    p.Below d inner n limit :=
  ⟨h.tame.part mem, (Weight.Lighter.of_le (weight_le_of_mem_parts mem)).trans_lt h.light⟩

theorem Below.later (h : e.Below d inner n limit) (le : n ≤ m) : e.Below d inner m limit :=
  { h with tame := h.tame.later le }

theorem Below.node (h : e.Below d inner n limit) (kind : e'.kind = e.kind)
    (parts : List.Forall₂ (Lightens d inner n) e.parts e'.parts) (open_ : e.item? = none) :
    e.Lightens d inner n e' :=
  .node (kind ▸ (tame_iff.1 h.tame).1) (by rw [kind]; exact .refl _) parts open_

end Expr

section

variable {ι : Type} {simplify : ι → Nat → Expr → Compile Expr} {e e' : Expr}

theorem SimplifierSettles.code (simplifies : SimplifierSettles d r o inner limit simplify)
    (hs : s.registry = r)
    (he : e.Below d inner s.supply.nextVar limit) (open_ : e.item? = none)
    (h : e.Lightens d inner s.supply.nextVar e') :
    (simplifyContract r).Settles o s (fun i n => simplify i n e') fun e' t =>
      e.Lightens d inner t.supply.nextVar e' := by
  refine (simplifies.layered inner 0 e' s (List.Subset.refl _) (Nat.zero_le _) hs (.code h.tame)
    (h.lighter.trans_lt he.light)).mono fun e'' t _ _ ⟨layered, lighter⟩ => ?_
  refine ⟨layered.tame (List.Subset.refl _) (Nat.zero_le _), lighter.trans h.lighter, ?_⟩
  intro f constant
  rw [open_] at constant
  cases constant

variable {sub : Substitution}

theorem whereUsed_settles {rewritten : ι → Nat → Compile Expr} {post : Expr → CompileState → Prop}
    (hs : s.registry = r) (unused : e.references sub.id = false → post e s)
    (used : (simplifyContract r).Settles o s rewritten post) :
    (simplifyContract r).Settles o s (fun i n => whereUsed sub e (rewritten i n)) post := by
  cases h : e.references sub.id with
  | true => exact used.congr fun i n => by rw [whereUsed, if_pos h]
  | false => exact (Settles.pure hs (unused h)).congr fun i n => by simp [whereUsed, h]

theorem Expr.substitute_of_unused (simplify : Expr → Compile Expr) (h : e.references sub.id = false) :
    e.substitute simplify sub = pure e := by
  cases e with
  | value | focus | error | literal => rfl
  | var ref =>
    rw [references_var] at h
    rw [Expr.substitute, h]
    rfl
  | _ => rw [Expr.substitute, whereUsed, h]; rfl

variable (simplifies : SimplifierSettles d r o inner limit simplify) (atom : sub.new.isAtom = true)

mutual
theorem Expr.substitute_settles (simplifies : SimplifierSettles d r o inner limit simplify)
    (atom : sub.new.isAtom = true) : (e : Expr) → (s : CompileState) → s.registry = r →
    sub.new.Tame d inner s.supply.nextVar → e.Below d inner s.supply.nextVar limit →
    (simplifyContract r).Settles o s (fun i n => e.substitute (simplify i n) sub) fun e' t =>
      e.Lightens d inner t.supply.nextVar e'
  | .value _, s, hs, _, he | .focus _, s, hs, _, he | .error _, s, hs, _, he
  | .literal _ _, s, hs, _, he => Settles.pure hs (.refl he.tame)
  | .var ref, s, hs, hnew, he => by
    refine Settles.pure hs ?_
    split
    · refine ⟨hnew, .of_le ?_, nofun⟩
      have none : sub.new.weight d.origins = 0 := by
        cases same : sub.new with
        | value v => rw [Expr.weight_eq]; rfl
        | var ref => rw [Expr.weight_eq]; rfl
        | _ => rw [same] at atom; cases atom
      rw [none]
      exact Multiset.zero_le _
    · exact .refl he.tame
  | .letIn x slot value body, s, hs, hnew, he => by
    refine whereUsed_settles hs (fun _ => .refl he.tame) ?_
    refine Settles.bind (value.substitute_settles simplifies atom s hs hnew (he.part (by simp [Expr.parts])))
      fun value' t ht ⟨hst, _⟩ hvalue => ?_
    refine Settles.bind (body.substitute_settles simplifies atom t ht (hnew.later hst)
      ((he.part (by simp [Expr.parts])).later hst)) fun body' u hu ⟨htu, _⟩ hbody => ?_
    have hsu := Nat.le_trans hst htu
    exact simplifies.code hu (he.later hsu) rfl
      ((he.later hsu).node rfl (.cons (hvalue.later htu) (.cons hbody .nil)) rfl)
  | .branch cond yes no span, s, hs, hnew, he => by
    refine whereUsed_settles hs (fun _ => .refl he.tame) ?_
    refine Settles.bind (cond.substitute_settles simplifies atom s hs hnew (he.part (by simp [Expr.parts])))
      fun cond' t ht ⟨hst, _⟩ hcond => ?_
    refine Settles.bind (yes.substitute_settles simplifies atom t ht (hnew.later hst)
      ((he.part (by simp [Expr.parts])).later hst)) fun yes' u hu ⟨htu, _⟩ hyes => ?_
    have hsu := Nat.le_trans hst htu
    refine Settles.bind (no.substitute_settles simplifies atom u hu (hnew.later hsu)
      ((he.part (by simp [Expr.parts])).later hsu)) fun no' v hv ⟨huv, _⟩ hno => ?_
    have hsv := Nat.le_trans hsu huv
    exact simplifies.code hv (he.later hsv) rfl ((he.later hsv).node rfl
      (.cons (hcond.later (Nat.le_trans htu huv)) (.cons (hyes.later huv) (.cons hno .nil))) rfl)
  | .arith op lhs rhs span, s, hs, hnew, he | .compare op lhs rhs span, s, hs, hnew, he => by
    refine whereUsed_settles hs (fun _ => .refl he.tame) ?_
    refine Settles.bind (lhs.substitute_settles simplifies atom s hs hnew (he.part (by simp [Expr.parts])))
      fun lhs' t ht ⟨hst, _⟩ hlhs => ?_
    refine Settles.bind (rhs.substitute_settles simplifies atom t ht (hnew.later hst)
      ((he.part (by simp [Expr.parts])).later hst)) fun rhs' u hu ⟨htu, _⟩ hrhs => ?_
    have hsu := Nat.le_trans hst htu
    exact simplifies.code hu (he.later hsu) rfl
      ((he.later hsu).node rfl (.cons (hlhs.later htu) (.cons hrhs .nil)) rfl)
  | .treat expr type span, s, hs, hnew, he => by
    refine whereUsed_settles hs (fun _ => .refl he.tame) ?_
    refine Settles.bind (expr.substitute_settles simplifies atom s hs hnew (he.part (by simp [Expr.parts])))
      fun expr' t ht ⟨hst, _⟩ hexpr => ?_
    exact simplifies.code ht (he.later hst) rfl
      ((he.later hst).node rfl (.cons hexpr .nil) rfl)
  | .seq es, s, hs, hnew, he | .builtin _ es _, s, hs, hnew, he | .call _ es, s, hs, hnew, he => by
    refine whereUsed_settles hs (fun _ => .refl he.tame) ?_
    refine Settles.bind (substituteList_settles simplifies atom es s hs hnew fun x mem => he.part mem)
      fun es' t ht ⟨hst, _⟩ hes => ?_
    exact simplifies.code ht (he.later hst) rfl ((he.later hst).node rfl hes rfl)
  | .closure c, s, hs, hnew, he => by
    refine whereUsed_settles hs (fun _ => .refl he.tame) ?_
    refine Settles.bind (c.substitute_settles simplifies atom s hs hnew he) fun c' t ht ⟨hst, _⟩ hc => ?_
    exact simplifies.code ht (he.later hst) rfl ((he.later hst).node hc.1 hc.2 rfl)
  | .partialApply site target args, s, hs, hnew, he => by
    refine whereUsed_settles hs (fun _ => .refl he.tame) ?_
    refine Settles.bind (target.substitute_settles simplifies atom s hs hnew (he.part (by simp [Expr.parts])))
      fun target' t ht ⟨hst, _⟩ htarget => ?_
    refine Settles.bind (substituteList_settles simplifies atom args t ht (hnew.later hst)
      fun x mem => (he.part (by simp [Expr.parts, mem])).later hst) fun args' u hu ⟨htu, _⟩ hargs => ?_
    have hsu := Nat.le_trans hst htu
    exact simplifies.code hu (he.later hsu) rfl
      ((he.later hsu).node rfl (.cons (htarget.later htu) hargs) rfl)
  | .dynamicCall site callee args, s, hs, hnew, he => by
    refine whereUsed_settles hs (fun _ => .refl he.tame) ?_
    refine Settles.bind (callee.substitute_settles simplifies atom s hs hnew (he.part (by simp [Expr.parts])))
      fun callee' t ht ⟨hst, _⟩ hcallee => ?_
    refine Settles.bind (substituteList_settles simplifies atom args t ht (hnew.later hst)
      fun x mem => (he.part (by simp [Expr.parts, mem])).later hst) fun args' u hu ⟨htu, _⟩ hargs => ?_
    have hsu := Nat.le_trans hst htu
    refine simplifies.code hu (he.later hsu) rfl
      (.node ⟨(Expr.tame_iff.1 he.tame).1.fits, nofun⟩ ?_ (.cons (hcallee.later htu) hargs) rfl)
    refine .singleton ?_
    -- A callee that is a constant stays one; any other may become one, which ranks lower.
    cases known : callee.item? with
    | none => exact callRank_le_none _ _ _
    | some f => rw [hcallee.item f known]

theorem substituteList_settles (simplifies : SimplifierSettles d r o inner limit simplify)
    (atom : sub.new.isAtom = true) : (es : List Expr) → (s : CompileState) → s.registry = r →
    sub.new.Tame d inner s.supply.nextVar → (∀ e ∈ es, e.Below d inner s.supply.nextVar limit) →
    (simplifyContract r).Settles o s (fun i n => substituteList (simplify i n) sub es) fun es' t =>
      List.Forall₂ (Expr.Lightens d inner t.supply.nextVar) es es'
  | [], _, hs, _, _ => Settles.pure hs .nil
  | e :: es, s, hs, hnew, all => by
    refine Settles.bind (e.substitute_settles simplifies atom s hs hnew (all e (by simp)))
      fun e' t ht ⟨hst, _⟩ he => ?_
    refine Settles.bind (substituteList_settles simplifies atom es t ht (hnew.later hst)
      fun x mem => (all x (by simp [mem])).later hst) fun es' u hu ⟨htu, _⟩ hes => Settles.pure hu ?_
    exact .cons (he.later htu) hes

theorem Closure.substitute_settles (simplifies : SimplifierSettles d r o inner limit simplify)
    (atom : sub.new.isAtom = true) : (c : Closure) → (s : CompileState) → s.registry = r →
    sub.new.Tame d inner s.supply.nextVar → (Expr.closure c).Below d inner s.supply.nextVar limit →
    (simplifyContract r).Settles o s (fun i n => c.substitute (simplify i n) sub) fun c' t =>
      (Expr.closure c').kind = (Expr.closure c).kind ∧
        List.Forall₂ (Expr.Lightens d inner t.supply.nextVar) (Expr.closure c).parts
          (Expr.closure c').parts
  | ⟨_, _, body, _, _, _, captures, _, _, _⟩, s, hs, hnew, hc => by
    refine Settles.bind (substituteSupplies_settles simplifies atom captures s hs hnew fun x mem =>
      hc.part (List.mem_append_left _ mem)) fun captures' t ht ⟨hst, _⟩ hcaptures => Settles.pure ht ⟨?_, ?_⟩
    · have length := hcaptures.length_eq
      simp only [List.length_map] at length
      simp only [Expr.kind, length]
    · have hbody := (hc.part (p := body) (by simp [Expr.parts])).tame.later hst
      exact List.rel_append hcaptures (.cons (.refl hbody) .nil)

theorem substituteSupplies_settles (simplifies : SimplifierSettles d r o inner limit simplify)
    (atom : sub.new.isAtom = true) : (es : List (VarId × Expr)) → (s : CompileState) →
    s.registry = r → sub.new.Tame d inner s.supply.nextVar →
    (∀ e ∈ es.map Prod.snd, e.Below d inner s.supply.nextVar limit) →
    (simplifyContract r).Settles o s (fun i n => substituteSupplies (simplify i n) sub es) fun es' t =>
      List.Forall₂ (Expr.Lightens d inner t.supply.nextVar) (es.map Prod.snd) (es'.map Prod.snd)
  | [], _, hs, _, _ => Settles.pure hs .nil
  | (key, e) :: es, s, hs, hnew, all => by
    refine Settles.bind (e.substitute_settles simplifies atom s hs hnew (all e (by simp)))
      fun e' t ht ⟨hst, _⟩ he => ?_
    refine Settles.bind (substituteSupplies_settles simplifies atom es t ht (hnew.later hst)
      fun x mem => (all x (List.mem_cons_of_mem _ mem)).later hst) fun es' u hu ⟨htu, _⟩ hes =>
        Settles.pure hu ?_
    exact .cons (he.later htu) hes
end

include simplifies atom

theorem Expr.Layered.substitute_settles (within : outer ⊆ inner) (since : fresh ≤ sub.id.index)
    (e : Expr) (s : CompileState) (hs : s.registry = r) (le : fresh ≤ s.supply.nextVar)
    (hnew : sub.new.Tame d inner s.supply.nextVar)
    (he : e.Layered d outer inner fresh s.supply.nextVar)
    (light : (e.weight d.origins).IsDershowitzMannaLT limit) :
    (simplifyContract r).Settles o s (fun i n => e.substitute (simplify i n) sub) fun e' t =>
      e'.Layered d outer inner fresh t.supply.nextVar ∧
        (e'.weight d.origins).Lighter (e.weight d.origins) := by
  induction he with
  | code he =>
    exact (Expr.substitute_settles simplifies atom _ s hs hnew ⟨he, light⟩).mono
      fun _ _ _ _ h => ⟨.code h.tame, h.lighter⟩
  | @letIn id slot bound body since' hbound hbody ih =>
    refine whereUsed_settles hs (fun _ => ⟨.letIn since' hbound hbody, .refl _⟩) ?_
    have unused : bound.references sub.id = false := by
      refine Bool.eq_false_iff.2 fun refers => ?_
      have drawn : sub.id.index < fresh := (hbound _ (references_iff.1 refers)).fits
      omega
    have part : body ∈ (Expr.letIn id slot bound body).parts := by simp [parts]
    have bodyLight := (Weight.Lighter.of_le (weight_le_of_mem_parts part)).trans_lt light
    refine Settles.congr (Settles.bind (ih bodyLight) fun body' t ht ⟨hst, _⟩ hbody' => ?_) fun i n => by
      rw [substitute_of_unused _ unused, pure_bind]
    have lighter : ((Expr.letIn id slot bound body').weight d.origins).Lighter
        ((Expr.letIn id slot bound body).weight d.origins) :=
      weight_node (.refl _) (.cons (.refl _) (.cons hbody'.2 .nil))
    exact (simplifies.layered outer fresh _ t within (Nat.le_trans le hst) ht (.letIn since' hbound hbody'.1)
      (lighter.trans_lt light)).mono fun _ _ _ _ h => ⟨h.1, h.2.trans lighter⟩

end

end QueryFunctions
