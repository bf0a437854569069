import QueryFunctions.Compile.Simplify
import QueryFunctions.Proofs.Compile.Substitution
import QueryFunctions.Proofs.Current.Rewriting
import QueryFunctions.Proofs.Law.Compiling

/-! The simplifier keeps code current. It declares variables in the scope at hand, but changes none that are
there already, so what it does not touch stays current as well. Variables that are pending may still change,
and simplified code refers to none of them if the code itself does not. -/
namespace QueryFunctions

/-- What the simplifier leaves as it was. -/
structure CompileState.Stays (s t : CompileState) : Prop where
  supply : s.supply.nextVar ≤ t.supply.nextVar
  scope : s.scope.Keeps t.scope
  registry : t.registry = s.registry

/-- Function bodies are current in their scopes. All variables below `n` have been drawn. -/
structure CompileState.Current (n : Nat) (s : CompileState) : Prop where
  drawn : n ≤ s.supply.nextVar
  scope : s.scope.Sound s.supply
  scopes : ∀ f entry, s.registry.find? f = some entry → entry.scope.Sound s.supply
  functions : ∀ f entry body, s.registry.find? f = some entry → entry.body = some body →
    body.Current s.supply entry.scope.Lists

def currency (n : Nat) : Pact CompileState where
  holds := CompileState.Current n
  leads := CompileState.Stays
  refl _ := ⟨Nat.le_refl _, .refl _, rfl⟩
  trans first second := ⟨Nat.le_trans first.supply second.supply, first.scope.trans second.scope,
    second.registry.trans first.registry⟩
  near _ := True
  back _ := fun h => h

/-- All function bodies stay current, and what is made satisfies `post`. -/
abbrev Compile.StaysCurrent {α : Type} (n : Nat) (o : Options) (s : CompileState) (act : Compile α)
    (post : α → CompileState → Prop) : Prop :=
  (currency n).Keeps o s act act post

/-- The code is current in the scope at hand and refers to no variable that is pending. -/
def Expr.CurrentAt (pending : VarId → Prop) (s : CompileState) (e : Expr) : Prop :=
  e.Current s.supply (s.scope.Knows pending)

def SimplifierStaysCurrent (n : Nat) (o : Options) (simplify : Expr → Compile Expr) : Prop :=
  ∀ pending : VarId → Prop, (∀ id, pending id → id.index < n) → ∀ e s, s.Current n →
    e.CurrentAt pending s → Compile.StaysCurrent n o s (simplify e) fun e' t => e'.CurrentAt pending t

variable {n : Nat} {pending : VarId → Prop} {o : Options} {s t : CompileState} {α : Type}

theorem Expr.CurrentAt.stays {e : Expr} (he : e.CurrentAt pending s) (hst : s.Stays t) :
    e.CurrentAt pending t := he.mono hst.supply hst.scope.knows

theorem Expr.CurrentAt.all_stay {es : List Expr} (all : ∀ e ∈ es, e.CurrentAt pending s)
    (hst : s.Stays t) : ∀ e ∈ es, e.CurrentAt pending t := fun e mem => (all e mem).stays hst

theorem Expr.CurrentAt.supplies_stay {es : List (VarId × Expr)}
    (all : ∀ q ∈ es, q.2.CurrentAt pending s) (hst : s.Stays t) :
    ∀ q ∈ es, q.2.CurrentAt pending t := fun q mem => (all q mem).stays hst

theorem Expr.Current.of_isValue {supply : Supply} {known : Listing} {e : Expr}
    (h : e.Current supply known) (constant : e.isValue = true) (known' : Listing) :
    e.Current supply known' := by
  cases e with
  | value v => exact current_value.2 (current_value.1 h)
  | _ => cases constant

theorem Expr.currentAt_of_current {e : Expr} (h : e.Current s.supply s.scope.Lists) :
    e.CurrentAt (fun _ => False) s := h.mono (Nat.le_refl _) fun lists => ⟨not_false, lists⟩

theorem Expr.CurrentAt.lists {e : Expr} (h : e.CurrentAt pending s) :
    e.Current s.supply s.scope.Lists := h.mono (Nat.le_refl _) And.right

namespace CompileState.Current

theorem drawing (hs : s.Current n) {supply : Supply} (le : s.supply.nextVar ≤ supply.nextVar) :
    CompileState.Current n { s with supply } ∧ s.Stays { s with supply } :=
  ⟨⟨Nat.le_trans hs.drawn le, hs.scope.mono le, fun f entry found => (hs.scopes f entry found).mono le,
    fun f entry body found present => (hs.functions f entry body found present).mono le fun h => h⟩,
    le, .refl _, rfl⟩

theorem inner (hs : s.Current n) {scope : Scope} (sound : scope.Sound s.supply) :
    CompileState.Current n { s with scope } := ⟨hs.drawn, sound, hs.scopes, hs.functions⟩

theorem adopting (hs : s.Current n) (callee : Scope) :
    (Compile.adopting s callee).Current n ∧ s.Stays (Compile.adopting s callee) := by
  obtain ⟨adopted, adoption⟩ := callee.adoptInto_adoption s.scope s.supply
  obtain ⟨later, -⟩ := hs.drawing adoption.grows
  exact ⟨later.inner (hs.scope.adoptInto callee), adoption.grows, (hs.scope.fresh.adopting callee).keeps,
    rfl⟩

end CompileState.Current

namespace Compile

theorem draw_current (hs : s.Current n) {act : Supplied α} {post : α → Supply → Prop}
    (given : Gives (fun _ => True) s.supply act post) :
    StaysCurrent n o s (draw act) fun a t => post a t.supply ∧ t.scope = s.scope := by
  unfold Gives at given
  cases run : act s.supply with
  | error f => exact .same (.of_fault (f := f) (t := s) (by simp only [draw, run]))
  | ok x =>
    rw [run] at given
    obtain ⟨holds, leads⟩ := hs.drawing given.1
    exact .of_eq (by simp only [draw, run]) holds leads ⟨given.2, rfl⟩

theorem ofFaulty_current (hs : s.Current n) (result : Except Fault α) :
    StaysCurrent n o s (ofFaulty result) fun a t => result = .ok a ∧ t = s := by
  cases result with
  | ok a => exact .pure hs ⟨rfl, rfl⟩
  | error f => exact .same (.of_fault rfl)

/-- In another scope, of which what became is given back, whether or not that ended with an error. -/
theorem inScope_held {pact : Pact CompileState} (inner : Scope) {act : Compile α}
    {post : α → CompileState → Prop} (made : pact.Keeps o { s with scope := inner } act act post)
    (back : ∀ t, pact.holds t → pact.leads { s with scope := inner } t →
      pact.holds { t with scope := s.scope } ∧ pact.leads s { t with scope := s.scope }) :
    pact.Keeps o s (inScope inner act) (inScope inner act) fun x u => ∃ t : CompileState,
      pact.holds t ∧ u = { t with scope := s.scope } ∧ x.2 = t.scope ∧
        pact.leads { s with scope := inner } t ∧ ∀ a, x.1 = .ok a → post a t := by
  refine .same fun result u run => ?_
  rcases h : act o { s with scope := inner } with ⟨f | ended, t⟩
  · simp only [inScope, h] at run
    cases run
  · simp only [inScope, h] at run
    cases run
    obtain ⟨ht, hst, value⟩ := made.law _ _ h
    obtain ⟨hu, hsu⟩ := back t ht hst
    refine ⟨hu, hsu, ?_⟩
    rintro _ ⟨⟩
    exact ⟨t, ht, rfl, rfl, hst, value⟩

theorem inScope_current (hs : s.Current n) (inner : Scope) {act : Compile α}
    {post : α → CompileState → Prop} (made : StaysCurrent n o { s with scope := inner } act post) :
    StaysCurrent n o s (inScope inner act) fun x u => ∃ t : CompileState, t.Current n ∧
      u = { t with scope := s.scope } ∧ x.2 = t.scope ∧ CompileState.Stays { s with scope := inner } t ∧
        ∀ a, x.1 = .ok a → post a t :=
  inScope_held inner made fun _ ht hst =>
    ⟨ht.inner (hs.scope.mono hst.supply), hst.supply, .refl _, hst.registry⟩

theorem refuse_current {β : Type} {err : QueryError} {next : α → Compile β}
    {post : β → CompileState → Prop} (hs : s.Current n) :
    StaysCurrent n o s (throw err >>= next) post := by
  rw [Computation.throw_bind]
  exact .throw hs

end Compile

section

variable {simplify : Expr → Compile Expr} (simplifies : SimplifierStaysCurrent n o simplify)
  (below : ∀ id, pending id → id.index < n)

section Substitution

variable {x : Substitution}

theorem whereUsed_current {e : Expr} {rewritten : Compile Expr} (hs : s.Current n)
    (he : e.CurrentAt pending s)
    (made : Compile.StaysCurrent n o s rewritten fun e' t => e'.CurrentAt pending t) :
    Compile.StaysCurrent n o s (whereUsed x e rewritten) fun e' t => e'.CurrentAt pending t := by
  unfold whereUsed
  split
  · exact made
  · exact .pure hs he

mutual
theorem Expr.substitute_current (simplifies : SimplifierStaysCurrent n o simplify)
    (below : ∀ id, pending id → id.index < n) : (e : Expr) → (s : CompileState) → s.Current n →
    x.new.CurrentAt pending s → e.CurrentAt pending s →
    Compile.StaysCurrent n o s (e.substitute simplify x) fun e' t => e'.CurrentAt pending t
  | .value _, _, hs, _, he | .focus _, _, hs, _, he | .error _, _, hs, _, he
  | .literal _ _, _, hs, _, he => .pure hs he
  | .var ref, _, hs, new, he => by
    refine .pure hs ?_
    split
    · exact new
    · exact he
  | .letIn id slot bound body, s, hs, new, he => by
    refine whereUsed_current hs he ?_
    obtain ⟨here, hbound, hbody⟩ := Expr.current_letIn.1 he
    refine (bound.substitute_current simplifies below s hs new hbound).bind fun bound' t ht hst hbound' => ?_
    refine (body.substitute_current simplifies below t ht (new.stays hst) (.stays hbody hst)).bind
      fun body' u hu htu hbody' => ?_
    have listed := here.imp fun _ => (hst.scope.trans htu.scope).knows
    exact simplifies _ below _ u hu (Expr.current_letIn.2 ⟨listed, hbound'.stays htu, hbody'⟩)
  | .branch cond yes no span, s, hs, new, he => by
    refine whereUsed_current hs he ?_
    obtain ⟨hcond, hyes, hno⟩ := Expr.current_branch.1 he
    refine (cond.substitute_current simplifies below s hs new hcond).bind fun cond' t ht hst hcond' => ?_
    refine (yes.substitute_current simplifies below t ht (new.stays hst) (.stays hyes hst)).bind
      fun yes' u hu htu hyes' => ?_
    have hsu := (currency n).trans hst htu
    refine (no.substitute_current simplifies below u hu (new.stays hsu) (.stays hno hsu)).bind
      fun no' v hv huv hno' => ?_
    exact simplifies _ below _ v hv (Expr.current_branch.2
      ⟨hcond'.stays ((currency n).trans htu huv), hyes'.stays huv, hno'⟩)
  | .arith op lhs rhs span, s, hs, new, he => by
    refine whereUsed_current hs he ?_
    obtain ⟨hl, hr⟩ := Expr.current_arith.1 he
    refine (lhs.substitute_current simplifies below s hs new hl).bind fun lhs' t ht hst hl' => ?_
    refine (rhs.substitute_current simplifies below t ht (new.stays hst) (.stays hr hst)).bind
      fun rhs' u hu htu hr' => ?_
    exact simplifies _ below _ u hu (Expr.current_arith.2 ⟨hl'.stays htu, hr'⟩)
  | .compare op lhs rhs span, s, hs, new, he => by
    refine whereUsed_current hs he ?_
    obtain ⟨hl, hr⟩ := Expr.current_compare.1 he
    refine (lhs.substitute_current simplifies below s hs new hl).bind fun lhs' t ht hst hl' => ?_
    refine (rhs.substitute_current simplifies below t ht (new.stays hst) (.stays hr hst)).bind
      fun rhs' u hu htu hr' => ?_
    exact simplifies _ below _ u hu (Expr.current_compare.2 ⟨hl'.stays htu, hr'⟩)
  | .seq items, s, hs, new, he => by
    refine whereUsed_current hs he ?_
    refine (substituteList_current simplifies below items s hs new (Expr.current_seq.1 he)).bind
      fun items' t ht _ hitems => ?_
    exact simplifies _ below _ t ht (Expr.current_seq.2 hitems)
  | .treat expr type span, s, hs, new, he => by
    refine whereUsed_current hs he ?_
    refine (expr.substitute_current simplifies below s hs new (Expr.current_treat.1 he)).bind
      fun expr' t ht _ hexpr => ?_
    exact simplifies _ below _ t ht (Expr.current_treat.2 hexpr)
  | .builtin function args span, s, hs, new, he => by
    refine whereUsed_current hs he ?_
    refine (substituteList_current simplifies below args s hs new (Expr.current_builtin.1 he)).bind
      fun args' t ht _ hargs => ?_
    exact simplifies _ below _ t ht (Expr.current_builtin.2 hargs)
  | .closure c, s, hs, new, he => by
    refine whereUsed_current hs he ?_
    exact (c.substitute_current simplifies below s hs new he).bind
      fun c' t ht _ hc => simplifies _ below _ t ht hc
  | .partialApply site target args, s, hs, new, he => by
    refine whereUsed_current hs he ?_
    obtain ⟨htarget, hargs⟩ := Expr.current_partialApply.1 he
    refine (target.substitute_current simplifies below s hs new htarget).bind
      fun target' t ht hst htarget' => ?_
    refine (substituteList_current simplifies below args t ht (new.stays hst)
      (Expr.CurrentAt.all_stay hargs hst)).bind fun args' u hu htu hargs' => ?_
    exact simplifies _ below _ u hu (Expr.current_partialApply.2 ⟨htarget'.stays htu, hargs'⟩)
  | .call site args, s, hs, new, he => by
    refine whereUsed_current hs he ?_
    refine (substituteList_current simplifies below args s hs new (Expr.current_call.1 he)).bind
      fun args' t ht _ hargs => ?_
    exact simplifies _ below _ t ht (Expr.current_call.2 hargs)
  | .dynamicCall site callee args, s, hs, new, he => by
    refine whereUsed_current hs he ?_
    obtain ⟨hcallee, hargs⟩ := Expr.current_dynamicCall.1 he
    refine (callee.substitute_current simplifies below s hs new hcallee).bind
      fun callee' t ht hst hcallee' => ?_
    refine (substituteList_current simplifies below args t ht (new.stays hst)
      (Expr.CurrentAt.all_stay hargs hst)).bind fun args' u hu htu hargs' => ?_
    exact simplifies _ below _ u hu (Expr.current_dynamicCall.2 ⟨hcallee'.stays htu, hargs'⟩)

theorem substituteList_current (simplifies : SimplifierStaysCurrent n o simplify)
    (below : ∀ id, pending id → id.index < n) : (es : List Expr) → (s : CompileState) → s.Current n →
    x.new.CurrentAt pending s → (∀ e ∈ es, e.CurrentAt pending s) →
    Compile.StaysCurrent n o s (substituteList simplify x es) fun es' t =>
      ∀ e ∈ es', e.CurrentAt pending t
  | [], _, hs, _, _ => .pure hs nofun
  | e :: es, s, hs, new, all => by
    refine (e.substitute_current simplifies below s hs new (all e (by simp))).bind fun e' t ht hst he => ?_
    refine (substituteList_current simplifies below es t ht (new.stays hst)
      fun y mem => (all y (by simp [mem])).stays hst).bind fun es' u hu htu hes => ?_
    exact .pure hu (List.forall_mem_cons.2 ⟨he.stays htu, hes⟩)

theorem Closure.substitute_current (simplifies : SimplifierStaysCurrent n o simplify)
    (below : ∀ id, pending id → id.index < n) : (c : Closure) → (s : CompileState) → s.Current n →
    x.new.CurrentAt pending s → (Expr.closure c).CurrentAt pending s →
    Compile.StaysCurrent n o s (c.substitute simplify x) fun c' t => (Expr.closure c').CurrentAt pending t
  | ⟨_, _, _, _, _, _, captures, _, _, _⟩, s, hs, new, hc => by
    obtain ⟨fits, hcaptures, hbody⟩ := Expr.current_closure.1 hc
    refine (substituteSupplies_current simplifies below captures s hs new hcaptures).bind
      fun captures' t ht hst made => .pure ht (Expr.current_closure.2 ⟨?_, made.2, ?_⟩)
    · refine { fits.mono hst.supply with keys := fun q mem => ?_ }
      have key : q.1 ∈ captures'.map Prod.fst := List.mem_map_of_mem mem
      rw [made.1] at key
      obtain ⟨y, among, same⟩ := List.mem_map.1 key
      exact same ▸ fits.keys y among
    · exact hbody.mono hst.supply fun lists => lists

theorem substituteSupplies_current (simplifies : SimplifierStaysCurrent n o simplify)
    (below : ∀ id, pending id → id.index < n) : (es : List (VarId × Expr)) →
    (s : CompileState) → s.Current n →
    x.new.CurrentAt pending s → (∀ q ∈ es, q.2.CurrentAt pending s) →
    Compile.StaysCurrent n o s (substituteSupplies simplify x es) fun es' t =>
      es'.map Prod.fst = es.map Prod.fst ∧ ∀ q ∈ es', q.2.CurrentAt pending t
  | [], _, hs, _, _ => .pure hs ⟨rfl, nofun⟩
  | (key, e) :: es, s, hs, new, all => by
    refine (e.substitute_current simplifies below s hs new (all (key, e) (by simp))).bind
      fun e' t ht hst he => ?_
    refine (substituteSupplies_current simplifies below es t ht (new.stays hst)
      fun y mem => (all y (by simp [mem])).stays hst).bind fun es' u hu htu made => ?_
    refine .pure hu ⟨?_, List.forall_mem_cons.2 ⟨he.stays htu, made.2⟩⟩
    rw [List.map_cons, List.map_cons, made.1]
end

end Substitution

include simplifies below

namespace Compile

theorem bindValue_current (hs : s.Current n) {v : Variable} {value body : Expr} (span : Span)
    (listed : s.scope.Knows pending v.id v.slot v.type) (hvalue : value.CurrentAt pending s)
    (hbody : body.CurrentAt pending s) :
    StaysCurrent n o s (bindValue simplify v value body span) fun e t => e.CurrentAt pending t := by
  have bound : ∀ (value : Expr) (t : CompileState), t.Current n → s.Stays t →
      value.CurrentAt pending t → StaysCurrent n o t (simplify (.letIn v.id v.slot value body))
        fun e t => e.CurrentAt pending t := fun value t ht hst hvalue =>
    simplifies _ below _ t ht
      (Expr.current_letIn.2 ⟨⟨v.type, hst.scope.knows listed⟩, hvalue, hbody.stays hst⟩)
  unfold bindValue
  dsimp only
  split
  · split
    · exact bound value s hs ((currency n).refl s) hvalue
    · exact (simplifies _ below _ s hs (Expr.current_treat.2 hvalue)).bind fun value' t ht hst made =>
        bound value' t ht hst made
  · exact bound value s hs ((currency n).refl s) hvalue

theorem bindAll_current {table : Renaming} (span : Span) : (bindings : List (VarId × Expr)) →
    (body : Expr) → (s : CompileState) → s.Current n →
    (∀ {id v}, table.find? id = some v → s.scope.Knows pending v.id v.slot v.type) →
    (∀ q ∈ bindings, q.2.CurrentAt pending s) → body.CurrentAt pending s →
    StaysCurrent n o s (bindings.foldlM (fun body q => do
      bindValue simplify (← ofFaulty (table.require q.1)) q.2 body span) body)
      fun e t => e.CurrentAt pending t
  | [], _, _, hs, _, _, hbody => .pure hs hbody
  | q :: bindings, body, s, hs, listed, values, hbody => by
    rw [List.foldlM_cons]
    have first : StaysCurrent n o s (do
        bindValue simplify (← ofFaulty (table.require q.1)) q.2 body span)
        fun e t => e.CurrentAt pending t := by
      refine (ofFaulty_current hs _).bind fun v t ht _ found => ?_
      obtain ⟨found, rfl⟩ := found
      exact bindValue_current simplifies below ht span (listed (Renaming.require_eq_ok_iff.1 found))
        (values q (by simp)) hbody
    refine first.bind fun body' t ht hst hbody' => ?_
    exact bindAll_current span bindings body' t ht (fun found => hst.scope.knows (listed found))
      (fun x mem => (values x (by simp [mem])).stays hst) hbody'

theorem expand_current (hs : s.Current n) (callee : Scope) {body : Expr}
    (hbody : body.Current s.supply callee.Lists) {bindings : List (VarId × Expr)}
    (values : ∀ q ∈ bindings, q.2.CurrentAt pending s) (origins : List Origin) (span : Span) :
    StaysCurrent n o s (expand simplify callee body bindings origins span)
      fun e t => e.CurrentAt pending t := by
  obtain ⟨entered, stays⟩ := hs.adopting callee
  have drawn := fun id pends => Nat.lt_of_lt_of_le (below id pends) hs.drawn
  have leads := hs.scope.fresh.leads_adoptInto callee drawn
  have run : expand simplify callee body bindings origins span o s = (do
      let body ← draw (body.copy ((callee.adoptInto s.scope).run s.supply).1.2)
      bindings.reverse.foldlM (fun body q => do
        bindValue simplify (← ofFaulty (((callee.adoptInto s.scope).run s.supply).1.2.require q.1))
          q.2 body span) (body.addOrigins origins) : Compile Expr) o (adopting s callee) := rfl
  refine Pact.Keeps.after run run stays ?_
  refine (draw_current entered (body.copy_current (adopting s callee).supply leads stays.supply
    hbody)).bind fun made t ht hst hmade => ?_
  refine bindAll_current simplifies below span bindings.reverse _ t ht (fun found => ?_)
    (fun q mem => ((values q (List.mem_reverse.1 mem)).stays stays).stays hst) ?_
  · exact hst.scope.knows (leads.listed found)
  · refine Expr.Current.mapSites ?_ _ _
    exact hmade.1.mono (Nat.le_refl _) hst.scope.knows

end Compile

namespace Closure

theorem substituteBody_current {key : VarId} {body new : Expr} (hs : s.Current n)
    (hbody : body.CurrentAt pending s) (hnew : new.CurrentAt pending s) :
    Compile.StaysCurrent n o s (do
      Compile.deferred (← Compile.attempt (body.substitute simplify ⟨key, new⟩)))
      fun e t => e.CurrentAt pending t :=
  (Pact.Keeps.attempt (body.substitute_current simplifies below s hs hnew hbody)).bind
    fun _ _ ht _ hresult => Pact.Keeps.deferred ht hresult fun _ => Expr.current_error

theorem substituteAll_current : (constants : List (VarId × Expr)) → (body : Expr) →
    (s : CompileState) → s.Current n → (∀ q ∈ constants, q.2.CurrentAt pending s) →
    body.CurrentAt pending s →
    Compile.StaysCurrent n o s (constants.foldlM (fun body (key, new) => do
      Compile.deferred (← Compile.attempt (body.substitute simplify ⟨key, new⟩))) body)
      fun e t => e.CurrentAt pending t
  | [], _, _, hs, _, hbody => .pure hs hbody
  | (key, new) :: constants, body, s, hs, all, hbody => by
    rw [List.foldlM_cons]
    refine (substituteBody_current simplifies below hs hbody (all (key, new) (by simp))).bind
      fun body' t ht hst hbody' => ?_
    exact substituteAll_current constants body' t ht (fun q mem => (all q (by simp [mem])).stays hst)
      hbody'

omit below

theorem propagate_current {c : Closure} (hs : s.Current n) (hc : (Expr.closure c).CurrentAt pending s) :
    Compile.StaysCurrent n o s (c.propagate simplify) fun c' t =>
      (Expr.closure c').CurrentAt pending t := by
  obtain ⟨fits, hcaptures, hbody⟩ := Expr.current_closure.1 hc
  unfold propagate
  dsimp only
  split
  · exact .pure hs hc
  · have inner := hs.inner fits.sound
    have constants : ∀ q ∈ c.captures.filter (·.2.isValue),
        q.2.CurrentAt (fun _ => False) { s with scope := c.scope } := fun q mem =>
      Expr.Current.of_isValue (hcaptures q (List.mem_filter.1 mem).1) (List.mem_filter.1 mem).2 _
    refine (Compile.inScope_current hs c.scope (substituteAll_current simplifies (fun _ => False.elim) _
      c.body _ inner constants (Expr.currentAt_of_current hbody))).bind fun x t ht hst hx => ?_
    obtain ⟨v, hv, rfl, scope, within, made⟩ := hx
    refine Pact.Keeps.bind (.same (.ofExcept ht)) fun body u hu _ found => ?_
    obtain ⟨found, rfl⟩ := found
    refine (Pact.Keeps.read hu).bind fun options w hw _ same => ?_
    obtain ⟨-, rfl⟩ := same
    refine .pure hw (Expr.current_closure.2 ⟨⟨?_, fun p mem => ?_, fun q mem => ?_⟩, fun q mem => ?_, ?_⟩)
    · exact scope ▸ hv.scope
    · exact scope ▸ within.scope.isSome (fits.params p mem)
    · exact scope ▸ within.scope.isSome (fits.keys q (List.mem_filter.1 mem).1)
    · exact (Expr.CurrentAt.supplies_stay hcaptures hst) q (List.mem_filter.1 mem).1
    · exact scope ▸ ((made body found).lists).keepTail _

theorem simplifyWith_current {c : Closure} (hs : s.Current n)
    (hc : (Expr.closure c).CurrentAt pending s) :
    Compile.StaysCurrent n o s (c.simplifyWith simplify) fun e t => e.CurrentAt pending t := by
  unfold simplifyWith
  split
  · exact .pure hs hc
  · refine (propagate_current simplifies hs hc).bind fun c' t ht _ hc' => ?_
    obtain ⟨fits, -, body⟩ := Expr.current_closure.1 hc'
    split
    · have made : Gives (fun _ => True) t.supply (liftSupply (c'.toItem [])) fun f u =>
          (Value.func f).Current u :=
        (Gives.liftSupply (Nat.le_refl _)).mono fun f u grows same => by
          have made := (c'.current_toItem fits body t.supply).mono grows
          rwa [show f = ((c'.toItem []).run t.supply).1 from congrArg Prod.fst same]
      exact (Compile.draw_current ht made).bind fun f u hu _ hf =>
        .pure hu (Expr.current_value.2 hf.1)
    · exact .pure ht hc'

end Closure

namespace Compile

theorem simplifyCall_current {site : CallSite} {args : List Expr} (hs : s.Current n)
    (he : (Expr.call site args).CurrentAt pending s) :
    StaysCurrent n o s (simplifyCall simplify site args) fun e t => e.CurrentAt pending t := by
  have hargs := Expr.current_call.1 he
  refine (Pact.Keeps.entryOf hs site.target).bind fun entry t ht _ found => ?_
  obtain ⟨found, rfl⟩ := found
  split
  · rename_i body present
    refine (Pact.Keeps.read ht).bind fun _ u hu _ same => ?_
    obtain ⟨-, rfl⟩ := same
    split
    · exact (expand_current simplifies below hu entry.scope (ht.functions _ entry body found present)
        (fun q mem => hargs q.2 (List.of_mem_zip mem).2) [] site.span).bind fun e v hv _ he =>
          .pure hv (he.keepTail _)
    · exact .pure hu he
  · exact .pure ht he

theorem expandClosure_current {site : DynamicSite} {c : Closure} {args : List Expr} (hs : s.Current n)
    (hc : (Expr.closure c).CurrentAt pending s) (hargs : ∀ e ∈ args, e.CurrentAt pending s) :
    StaysCurrent n o s (expandClosure simplify site c args) fun e t => e.CurrentAt pending t := by
  obtain ⟨-, captures, body⟩ := Expr.current_closure.1 hc
  refine (expand_current simplifies below hs c.scope body (fun q mem => ?_) _ c.span).bind
    fun e t ht _ he => .pure ht (he.keepTail _)
  rcases List.mem_append.1 mem with arg | capture
  · exact hargs q.2 (List.of_mem_zip arg).2
  · exact captures q capture

omit simplifies below

theorem foldPartial_current (site : PartialSite) {target : Expr} {args : List Expr} (hs : s.Current n)
    (htarget : target.CurrentAt pending s) (hargs : ∀ e ∈ args, e.CurrentAt pending s) :
    StaysCurrent n o s
      (match target, Expr.values? args with
        | .value (.func item), some supplied => do
          return .value (.func (← draw (PartialApplication.make item supplied site.holes site.span)))
        | _, _ => return .partialApply site target args) fun (e : Expr) t => e.CurrentAt pending t := by
  split
  · rename_i item supplied found
    have hitem := Expr.current_value.1 htarget
    have values := Expr.current_of_values? hargs found
    have made := PartialApplication.current_make hitem values site.holes site.span
    exact (draw_current hs made).bind fun f u hu _ hf => .pure hu (Expr.current_value.2 hf.1)
  · exact .pure hs (Expr.current_partialApply.2 ⟨htarget, hargs⟩)

theorem simplifyPartial_current {site : PartialSite} {target : Expr} {args : List Expr}
    (hs : s.Current n) (he : (Expr.partialApply site target args).CurrentAt pending s) :
    StaysCurrent n o s (simplifyPartial site target args) fun e t => e.CurrentAt pending t := by
  obtain ⟨htarget, hargs⟩ := Expr.current_partialApply.1 he
  unfold simplifyPartial
  dsimp only
  split
  · exact foldPartial_current site hs htarget hargs
  · rename_i type _
    split
    · exact refuse_current hs
    · refine (ofFaulty_current hs _).bind fun left t ht _ same => ?_
      obtain ⟨-, rfl⟩ := same
      exact foldPartial_current { site with type := some left } hs htarget hargs

theorem checkCallee_current (hs : s.Current n) (site : DynamicSite) (callee : Expr) (arity : Nat) :
    StaysCurrent n o s (checkCallee site callee arity) fun _ _ => True := by
  unfold checkCallee
  split
  · exact .pure hs trivial
  · dsimp only
    split
    · exact refuse_current hs
    · refine (Pact.Keeps.read hs).skip fun _ t ht _ => ?_
      split
      · split
        · exact refuse_current ht
        · split
          · exact .throw ht
          · exact .pure ht trivial
      · exact .pure ht trivial

include simplifies below

theorem simplifyDynamicCall_current {site : DynamicSite} {callee : Expr} {args : List Expr}
    (hs : s.Current n) (he : (Expr.dynamicCall site callee args).CurrentAt pending s) :
    StaysCurrent n o s (simplifyDynamicCall simplify site callee args)
      fun e t => e.CurrentAt pending t := by
  have closure : ∀ (c : Closure) (t : CompileState), t.Current n →
      (Expr.closure c).CurrentAt pending t → (Expr.dynamicCall site callee args).CurrentAt pending t →
      StaysCurrent n o t (if c.inlinable o && !site.inlinedFrom.contains c.origin then
          expandClosure simplify site c args
        else return .dynamicCall site callee args) fun e t => e.CurrentAt pending t := by
    intro c t ht hc he
    split
    · exact expandClosure_current simplifies below ht hc (Expr.current_dynamicCall.1 he).2
    · exact .pure ht he
  refine (checkCallee_current hs site callee args.length).skip fun _ t ht hst => ?_
  refine (Pact.Keeps.read ht).bind fun _ u hu _ same => ?_
  obtain ⟨rfl, rfl⟩ := same
  replace he := he.stays hst
  obtain ⟨hcallee, hargs⟩ := Expr.current_dynamicCall.1 he
  split
  · rename_i item
    have hitem := Expr.current_value.1 hcallee
    split
    · exact simplifies _ below _ u hu (Expr.current_builtin.2 hargs)
    · rename_i params captured body scope code
      split
      · refine (expand_current simplifies below hu scope (hitem item .item _ _ _ _ code).2
          (fun q mem => ?_) _ site.span).bind fun e v hv _ he => .pure hv (he.keepTail _)
        rcases List.mem_append.1 mem with arg | capture
        · exact hargs q.2 (List.of_mem_zip arg).2
        · obtain ⟨y, among, rfl⟩ := List.mem_map.1 capture
          exact Expr.current_value.2 (hitem.captured code among)
      · exact .pure hu he
  · rename_i c
    exact closure c u hu hcallee he
  · rename_i c
    exact closure c u hu (Expr.current_literal.1 hcallee) he
  · exact .pure hu he

end Compile

theorem Expr.simplifyWith_current {e : Expr} (hs : s.Current n) (he : e.CurrentAt pending s) :
    Compile.StaysCurrent n o s (e.simplifyWith simplify) fun e t => e.CurrentAt pending t := by
  cases e with
  | letIn key slot bound body =>
    obtain ⟨-, hbound, hbody⟩ := current_letIn.1 he
    rw [simplifyWith]
    split
    · exact body.substitute_current simplifies below s hs hbound hbody
    · split
      · exact .pure hs hbody
      · exact .pure hs he
  | branch => exact .pure hs he.foldBranch
  | arith => exact .pure hs he.foldArith
  | compare => exact .pure hs he.foldCompare
  | seq => exact .pure hs he.foldSeq
  | treat => exact .pure hs he.foldTreat
  | builtin => exact .pure hs he.foldBuiltin
  | closure c => exact Closure.simplifyWith_current simplifies hs he
  | literal site c =>
    refine (Closure.simplifyWith_current simplifies hs (current_literal.1 he)).bind
      fun e t ht _ made => .pure ht ?_
    unfold Compile.rewrapLiteral
    split
    · exact current_literal.2 made
    · exact made
  | partialApply => exact Compile.simplifyPartial_current hs he
  | call => exact Compile.simplifyCall_current simplifies below hs he
  | dynamicCall => exact Compile.simplifyDynamicCall_current simplifies below hs he
  | value | var | focus | error => exact .pure hs he

end

theorem Expr.simplify_current (n : Nat) (o : Options) (budget : Nat) :
    SimplifierStaysCurrent n o (Expr.simplify budget) := by
  induction budget with
  | zero => exact fun _ _ _ _ _ _ => .same (.of_fault rfl)
  | succ budget ih => exact fun _ below _ _ hs he => simplifyWith_current ih below hs he

end QueryFunctions
