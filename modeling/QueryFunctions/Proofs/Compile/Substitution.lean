import QueryFunctions.Compile.Substitution
import QueryFunctions.Proofs.Compile.State
import QueryFunctions.Proofs.Standard.Rewriting
import QueryFunctions.Compile.Simplify
import QueryFunctions.Proofs.Standard.Copying

/-! Substitution keeps the standard if the simplifier does, which sees every rewritten node. So does
expansion: a body that comes in place of a call binds adopted variables only, and what they are bound to
was there before. -/
namespace QueryFunctions

variable {d : Standard} {a : Allowance} {o : Options} {s : CompileState}

/-- The simplifier makes compiled code from compiled code, in any scope that is open to it. -/
def SimplifierKeeps (d : Standard) (o : Options) (simplify : Expr → Compile Expr) : Prop :=
  ∀ (a : Allowance), a.Open d → ∀ (e : Expr) (s : CompileState), s.Meets d a →
    e.Meets d true (a.inside d s.scope) → Compile.Makes d a o s (simplify e)

/-- An expression that does nothing, so that it may stand anywhere. -/
def Expr.Inert (d : Standard) (e : Expr) : Prop := ∀ a, e.Meets d true a

theorem Expr.inert_of_isAtom {e : Expr} (he : e.Meets d true a) (atom : e.isAtom = true) :
    e.Inert d := by
  intro b
  cases e with
  | value v => rwa [Expr.Meets] at he ⊢
  | var ref => simp only [Expr.Meets]
  | _ => cases atom

section

variable {simplify : Expr → Compile Expr} (simplifies : SimplifierKeeps d o simplify)
  (isOpen : a.Open d) {sub : Substitution}

theorem whereUsed_makes {e : Expr} {rewritten : Compile Expr} (hs : s.Meets d a)
    (he : e.Meets d true (a.inside d s.scope)) (made : Compile.Makes d a o s rewritten) :
    Compile.Makes d a o s (whereUsed sub e rewritten) := by
  unfold whereUsed
  split
  · exact made
  · exact Law.Keeps.pure hs he

variable (inert : sub.new.Inert d)

mutual
theorem Expr.substitute_makes (simplifies : SimplifierKeeps d o simplify) (isOpen : a.Open d)
    (inert : sub.new.Inert d) : (e : Expr) → (s : CompileState) → s.Meets d a →
    e.Meets d true (a.inside d s.scope) → Compile.Makes d a o s (e.substitute simplify sub)
  | .value _, _, hs, he => Law.Keeps.pure hs he
  | .focus _, _, hs, he => Law.Keeps.pure hs he
  | .error _, _, hs, he => Law.Keeps.pure hs he
  | .literal _ _, _, hs, he => Law.Keeps.pure hs he
  | .var ref, _, hs, he => by
    refine Law.Keeps.pure hs ?_
    split
    · exact inert _
    · exact he
  | .letIn id slot value body, s, hs, he => by
    refine whereUsed_makes hs he ?_
    rw [Expr.Meets] at he
    obtain ⟨hslot, hid, hvalue, hbody⟩ := he
    refine Law.Keeps.bind (Expr.substitute_makes simplifies isOpen inert value s hs hvalue)
      fun value' t ht hst hvalue' => ?_
    refine Law.Keeps.bind (Expr.substitute_makes simplifies isOpen inert body t ht (hst.meets hbody))
      fun body' u hu htu hbody' => ?_
    refine simplifies a isOpen _ u hu ?_
    rw [Expr.Meets]
    exact ⟨hslot, fun demanded => (hst.trans htu).scope id (hid demanded), htu.meets hvalue', hbody'⟩
  | .branch cond yes no span, s, hs, he => by
    refine whereUsed_makes hs he ?_
    rw [Expr.Meets] at he
    obtain ⟨hcond, hyes, hno⟩ := he
    refine Law.Keeps.bind (Expr.substitute_makes simplifies isOpen inert cond s hs hcond)
      fun cond' t ht hst hcond' => ?_
    refine Law.Keeps.bind (Expr.substitute_makes simplifies isOpen inert yes t ht (hst.meets hyes))
      fun yes' u hu htu hyes' => ?_
    refine Law.Keeps.bind (Expr.substitute_makes simplifies isOpen inert no u hu ((hst.trans htu).meets hno))
      fun no' w hw huw hno' => ?_
    refine simplifies a isOpen _ w hw ?_
    rw [Expr.Meets]
    exact ⟨(htu.trans huw).meets hcond', huw.meets hyes', hno'⟩
  | .arith op lhs rhs span, s, hs, he => by
    refine whereUsed_makes hs he ?_
    rw [Expr.Meets] at he
    refine Law.Keeps.bind (Expr.substitute_makes simplifies isOpen inert lhs s hs he.1)
      fun lhs' t ht hst hlhs' => ?_
    refine Law.Keeps.bind (Expr.substitute_makes simplifies isOpen inert rhs t ht (hst.meets he.2))
      fun rhs' u hu htu hrhs' => ?_
    refine simplifies a isOpen _ u hu ?_
    rw [Expr.Meets]
    exact ⟨htu.meets hlhs', hrhs'⟩
  | .compare op lhs rhs span, s, hs, he => by
    refine whereUsed_makes hs he ?_
    rw [Expr.Meets] at he
    refine Law.Keeps.bind (Expr.substitute_makes simplifies isOpen inert lhs s hs he.1)
      fun lhs' t ht hst hlhs' => ?_
    refine Law.Keeps.bind (Expr.substitute_makes simplifies isOpen inert rhs t ht (hst.meets he.2))
      fun rhs' u hu htu hrhs' => ?_
    refine simplifies a isOpen _ u hu ?_
    rw [Expr.Meets]
    exact ⟨htu.meets hlhs', hrhs'⟩
  | .seq items, s, hs, he => by
    refine whereUsed_makes hs he ?_
    rw [Expr.Meets] at he
    refine Law.Keeps.bind (substituteList_keeps simplifies isOpen inert items s hs he)
      fun items' t ht _ hitems' => ?_
    exact simplifies a isOpen _ t ht (by rwa [Expr.Meets])
  | .treat expr type span, s, hs, he => by
    refine whereUsed_makes hs he ?_
    rw [Expr.Meets] at he
    refine Law.Keeps.bind (Expr.substitute_makes simplifies isOpen inert expr s hs he)
      fun expr' t ht _ hexpr' => ?_
    exact simplifies a isOpen _ t ht (by rwa [Expr.Meets])
  | .builtin function args span, s, hs, he => by
    refine whereUsed_makes hs he ?_
    rw [Expr.Meets] at he
    obtain ⟨hu, hd, hargs⟩ := he
    refine Law.Keeps.bind (substituteList_keeps simplifies isOpen inert args s hs hargs)
      fun args' t ht _ hargs' => ?_
    refine simplifies a isOpen _ t ht ?_
    rw [Expr.Meets]
    exact ⟨hu, hd, hargs'⟩
  | .closure c, s, hs, he => by
    refine whereUsed_makes hs he ?_
    rw [Expr.Meets] at he
    refine Law.Keeps.bind (Closure.substitute_keeps simplifies isOpen inert c s hs he) fun c' t ht _ hc' => ?_
    refine simplifies a isOpen _ t ht ?_
    rw [Expr.Meets, hc'.1]
    exact hc'.2
  | .partialApply site target args, s, hs, he => by
    refine whereUsed_makes hs he ?_
    rw [Expr.Meets] at he
    refine Law.Keeps.bind (Expr.substitute_makes simplifies isOpen inert target s hs he.1)
      fun target' t ht hst htarget' => ?_
    refine Law.Keeps.bind (substituteList_keeps simplifies isOpen inert args t ht (hst.listMeets he.2))
      fun args' u hu htu hargs' => ?_
    refine simplifies a isOpen _ u hu ?_
    rw [Expr.Meets]
    exact ⟨htu.meets htarget', hargs'⟩
  | .call site args, s, hs, he => by
    refine whereUsed_makes hs he ?_
    rw [Expr.Meets] at he
    obtain ⟨mentioned, hu, hd, hargs⟩ := he
    refine Law.Keeps.bind (substituteList_keeps simplifies isOpen inert args s hs hargs)
      fun args' t ht _ hargs' => ?_
    refine simplifies a isOpen _ t ht ?_
    rw [Expr.Meets]
    exact ⟨mentioned, hu, hd, hargs'⟩
  | .dynamicCall site callee args, s, hs, he => by
    refine whereUsed_makes hs he ?_
    rw [Expr.Meets] at he
    obtain ⟨hu, hcallee, hargs⟩ := he
    refine Law.Keeps.bind (Expr.substitute_makes simplifies isOpen inert callee s hs hcallee)
      fun callee' t ht hst hcallee' => ?_
    refine Law.Keeps.bind (substituteList_keeps simplifies isOpen inert args t ht (hst.listMeets hargs))
      fun args' u hu' htu hargs' => ?_
    refine simplifies a isOpen _ u hu' ?_
    rw [Expr.Meets]
    exact ⟨hu, htu.meets hcallee', hargs'⟩

theorem substituteList_keeps (simplifies : SimplifierKeeps d o simplify) (isOpen : a.Open d)
    (inert : sub.new.Inert d) : (es : List Expr) → (s : CompileState) → s.Meets d a →
    listMeets d true (a.inside d s.scope) es →
    (compileLaw d a).Keeps o s (substituteList simplify sub es) fun es' t =>
      listMeets d true (a.inside d t.scope) es'
  | [], _, hs, _ => Law.Keeps.pure hs (by simp only [listMeets])
  | e :: es, s, hs, he => by
    rw [listMeets] at he
    refine Law.Keeps.bind (Expr.substitute_makes simplifies isOpen inert e s hs he.1)
      fun e' t ht hst he' => ?_
    refine Law.Keeps.bind (substituteList_keeps simplifies isOpen inert es t ht (hst.listMeets he.2))
      fun es' u hu htu hes' => ?_
    refine Law.Keeps.pure hu ?_
    rw [listMeets]
    exact ⟨htu.meets he', hes'⟩

theorem Closure.substitute_keeps (simplifies : SimplifierKeeps d o simplify) (isOpen : a.Open d)
    (inert : sub.new.Inert d) : {updating : Bool} → (c : Closure) → (s : CompileState) →
    s.Meets d a → c.Meets d true (a.inside d s.scope) updating →
    (compileLaw d a).Keeps o s (c.substitute simplify sub) fun c' t =>
      c'.annotations = c.annotations ∧ c'.Meets d true (a.inside d t.scope) updating
  | _, ⟨_, _, _, _, _, _, captures, _, _, _⟩, s, hs, hc => by
    rw [Closure.Meets] at hc
    refine Law.Keeps.bind (substituteSupplies_keeps simplifies isOpen inert captures s hs hc.2.1)
      fun captures' t ht _ hcaptures' => Law.Keeps.pure ht ⟨rfl, ?_⟩
    rw [Closure.Meets]
    exact ⟨hc.1, hcaptures', hc.2.2⟩

theorem substituteSupplies_keeps (simplifies : SimplifierKeeps d o simplify) (isOpen : a.Open d)
    (inert : sub.new.Inert d) : (es : List (VarId × Expr)) → (s : CompileState) → s.Meets d a →
    suppliesMeet d true (a.inside d s.scope) es →
    (compileLaw d a).Keeps o s (substituteSupplies simplify sub es) fun es' t =>
      suppliesMeet d true (a.inside d t.scope) es'
  | [], _, hs, _ => Law.Keeps.pure hs (by simp only [suppliesMeet])
  | (_, e) :: es, s, hs, he => by
    rw [suppliesMeet] at he
    refine Law.Keeps.bind (Expr.substitute_makes simplifies isOpen inert e s hs he.1)
      fun e' t ht hst he' => ?_
    refine Law.Keeps.bind (substituteSupplies_keeps simplifies isOpen inert es t ht (hst.suppliesMeet he.2))
      fun es' u hu htu hes' => ?_
    refine Law.Keeps.pure hu ?_
    rw [suppliesMeet]
    exact ⟨htu.meets he', hes'⟩
end

end

namespace Compile

theorem keepTail_meets {e : Expr} {compiled : Bool} (he : e.Meets d compiled a) (tail : Bool) :
    (keepTail tail e).Meets d compiled a := by
  unfold keepTail
  split
  · exact Expr.markTails_meets e he
  · exact he

/-- The state once the variables of `callee` are adopted into the scope at hand. -/
def adopting (s : CompileState) (callee : Scope) : CompileState :=
  { s with
    scope := ((callee.adoptInto s.scope).run s.supply).1.1
    supply := ((callee.adoptInto s.scope).run s.supply).2 }

theorem adopting_meets (hs : s.Meets d a) (callee : Scope) : (adopting s callee).Meets d a := by
  obtain ⟨adopted, adoption⟩ := callee.adoptInto_adoption s.scope s.supply
  refine ⟨hs.functions, fun slot free => hs.free slot fun taken => free ?_, ?_⟩
  · exact (adoption.taken slot).2 (.inl taken)
  · exact hs.fresh.imp (fun fresh => (adoption.slots fresh).1) id

theorem adopting_leads (s : CompileState) (callee : Scope) :
    CompileState.Leads s (adopting s callee) := by
  obtain ⟨adopted, adoption⟩ := callee.adoptInto_adoption s.scope s.supply
  refine { CompileState.Leads.refl s with scope := fun id present => ?_, supply := adoption.grows }
  rw [Scope.isSome_find?_iff] at present ⊢
  change id ∈ ((callee.adoptInto s.scope).run s.supply).1.1.layout.map Prod.fst
  rw [adoption.layout, List.map_append]
  exact List.mem_append_left _ present

theorem adopting_fits (hs : s.Meets d a) (isOpen : a.Open d) (callee : Scope) {updating : Bool}
    (allowed : (d.annotated → updating = true) → a.updates) :
    ((callee.adoptInto s.scope).run s.supply).1.2.Fits (.ofBody d updating callee)
      (a.inside d (adopting s callee).scope) := by
  obtain ⟨adopted, adoption⟩ := callee.adoptInto_adoption s.scope s.supply
  refine ⟨allowed, fun _ => isOpen.draws, fun {id v} found => ⟨?_, fun _ => ?_⟩,
    fun {id slot} absent _ binds => ?_, fun flagged => (isOpen.unflagged flagged).elim⟩
  · rcases hs.fresh with fresh | wide
    · have mem := (adoption.slots fresh).2 id v found
      exact hs.free v.slot (adoption.apart v.slot (List.mem_map_of_mem mem))
    · exact wide v.slot
  · rw [Scope.isSome_find?_iff]
    change v.id ∈ ((callee.adoptInto s.scope).run s.supply).1.1.layout.map Prod.fst
    rw [adoption.layout, List.map_append]
    exact List.mem_append_right _ (adoption.ids id v found)
  · have unbound : ¬d.bound := by
      intro demanded
      obtain ⟨v, hv⟩ := Option.isSome_iff_exists.1 (binds demanded)
      have present := adoption.known v (List.mem_of_find?_eq_some hv)
      rw [(Scope.mem_layout_of_find? hv).1, absent] at present
      cases present
    exact ⟨isOpen.slots.resolve_left unbound slot, fun demanded => absurd demanded unbound⟩

section

variable {simplify : Expr → Compile Expr} (simplifies : SimplifierKeeps d o simplify)
  (isOpen : a.Open d)

include simplifies isOpen

theorem bindValue_makes (hs : s.Meets d a) {v : Variable} {value body : Expr} (span : Span)
    (slot : a.slot v.slot) (binds : (a.inside d s.scope).binds v.id)
    (hvalue : value.Meets d true (a.inside d s.scope))
    (hbody : body.Meets d true (a.inside d s.scope)) :
    Makes d a o s (bindValue simplify v value body span) := by
  have bound : ∀ (value : Expr) (t : CompileState), t.Meets d a → CompileState.Leads s t →
      value.Meets d true (a.inside d t.scope) →
      Makes d a o t (simplify (.letIn v.id v.slot value body)) := by
    intro value t ht hst hvalue
    refine simplifies a isOpen _ t ht ?_
    rw [Expr.Meets]
    exact ⟨slot, fun demanded => hst.scope v.id (binds demanded), hvalue, hst.meets hbody⟩
  unfold bindValue
  dsimp only
  split
  · split
    · exact bound value s hs (.refl s) hvalue
    · refine Law.Keeps.bind (simplifies a isOpen _ s hs (by rwa [Expr.Meets]))
        fun value' t ht hst hvalue' => bound value' t ht hst hvalue'
  · exact bound value s hs (.refl s) hvalue

theorem expand_makes (hs : s.Meets d a) {callee : Scope} {body : Expr} {updating : Bool}
    (hbody : body.Meets d true (.ofBody d updating callee))
    (allowed : (d.annotated → updating = true) → a.updates) {bindings : List (VarId × Expr)}
    (values : ∀ p ∈ bindings, p.2.Meets d true (a.inside d s.scope)) (origins : List Origin)
    (span : Span) : Makes d a o s (expand simplify callee body bindings origins span) := by
  have leads := adopting_leads s callee
  have fits := adopting_fits hs isOpen callee allowed
  have run : expand simplify callee body bindings origins span o s = (do
      let body ← draw (body.copy ((callee.adoptInto s.scope).run s.supply).1.2)
      bindings.reverse.foldlM (fun body p => do
        bindValue simplify (← ofFaulty (((callee.adoptInto s.scope).run s.supply).1.2.require p.1))
          p.2 body span) (body.addOrigins origins) : Compile Expr) o (adopting s callee) := rfl
  refine Law.Keeps.after run leads ?_
  generalize ((callee.adoptInto s.scope).run s.supply).1.2 = table at fits
  refine Law.Keeps.bind (draw_keeps (adopting_meets hs callee) (Expr.copy_meets fits body hbody))
    fun copied t ht hst hcopied => ?_
  -- What a binding needs stays true while the others are bound.
  let pre (p : VarId × Expr) (t : CompileState) : Prop :=
    p.2.Meets d true (a.inside d t.scope) ∧
      ∀ v, table.find? p.1 = some v → a.slot v.slot ∧ (a.inside d t.scope).binds v.id
  have stable : ∀ p t u, CompileState.Leads t u → pre p t → pre p u := by
    intro p t u htu hp
    refine ⟨htu.meets hp.1, fun v found => ⟨(hp.2 v found).1, fun demanded => ?_⟩⟩
    exact htu.scope v.id ((hp.2 v found).2 demanded)
  have each : ∀ body p t, CompileState.Meets d a t → body.Meets d true (a.inside d t.scope) →
      pre p t → Makes d a o t (do bindValue simplify (← ofFaulty (table.require p.1)) p.2 body span) := by
    intro body p t ht hbody hp
    refine Law.Keeps.bind (ofFaulty_keeps ht) fun v u hu _ same => ?_
    obtain ⟨required, rfl⟩ := same
    have found := Renaming.require_eq_ok_iff.1 required
    exact bindValue_makes simplifies isOpen hu span (hp.2 v found).1 (hp.2 v found).2 hp.1 hbody
  refine Law.Keeps.foldlM stable (fun body p => each body p) bindings.reverse _ t ht
    (Expr.addOrigins_meets (hst.meets hcopied) origins) fun p hp => ?_
  refine stable p _ t hst ⟨leads.meets (values p (List.mem_reverse.1 hp)), fun v found => ?_⟩
  exact fits.renamed found

end

end Compile

end QueryFunctions
