import QueryFunctions.Compile.Simplify
import QueryFunctions.Proofs.Compile.Substitution
import QueryFunctions.Proofs.Hygiene.Rewriting
import QueryFunctions.Proofs.Law.Compiling

/-! The simplifier keeps references to a variable where they are, in the frame of the code, and substitution
leaves none of them there. What is expanded is copied first, so it does not matter which variables the
functions of the registry have. -/
namespace QueryFunctions

/-- The variable is drawn, and function bodies refer to no variables of that name but their own. -/
structure CompileState.Secludes (id : VarId) (s : CompileState) : Prop where
  drawn : id.index < s.supply.nextVar
  functions : ∀ f entry body, s.registry.find? f = some entry → entry.body = some body →
    body.Confines id True (entry.scope.find? id).isSome

def seclusion (id : VarId) : Pact CompileState where
  holds := CompileState.Secludes id
  leads _ _ := True
  refl _ := trivial
  trans _ _ := trivial
  near _ := True
  back _ := fun h => h

/-- The variable stays secluded, and what is made satisfies `post`. -/
abbrev Compile.Secludes {α : Type} (id : VarId) (o : Options) (s : CompileState) (act : Compile α)
    (post : α → Prop) : Prop :=
  (seclusion id).Keeps o s act act fun a _ => post a

/-- Simplified code refers to the variable in its frame at most, and there only if it did so before. -/
def SimplifierSecludes (id : VarId) (o : Options) (simplify : Expr → Compile Expr) : Prop :=
  ∀ (frame : Prop) e s, s.Secludes id → e.Confines id False frame →
    Compile.Secludes id o s (simplify e) (·.Confines id False frame)

variable {id : VarId} {frame : Prop} {o : Options} {s : CompileState} {α : Type}

namespace Compile

theorem draw_secludes (hs : s.Secludes id) {act : Supplied α} {post : α → Prop}
    (given : Gives (fun _ => True) s.supply act fun a _ => post a) : Secludes id o s (draw act) post := by
  unfold Gives at given
  cases run : act s.supply with
  | error f => exact .same (.of_fault (f := f) (t := s) (by simp only [draw, run]))
  | ok x =>
    rw [run] at given
    have holds : CompileState.Secludes id { s with supply := x.2 } :=
      { hs with drawn := Nat.lt_of_lt_of_le hs.drawn given.1 }
    exact .of_eq (by simp only [draw, run]) holds trivial given.2

theorem ofFaulty_secludes (hs : s.Secludes id) (result : Except Fault α) :
    Secludes id o s (ofFaulty result) fun _ => True := by
  cases result with
  | ok a => exact .pure hs trivial
  | error f => exact .same (.of_fault rfl)

theorem inScope_secludes (inner : Scope) {act : Compile α} {post : α → Prop}
    (made : Secludes id o { s with scope := inner } act post) :
    Secludes id o s (inScope inner act) fun x => ∀ a, x.1 = .ok a → post a := by
  refine (Pact.Keeps.inScope inner made (fun t ht _ => ⟨⟨ht.drawn, ht.functions⟩, trivial⟩)
    fun _ near => near).mono fun x u _ _ ending => ?_
  obtain ⟨t, -, -, -, value⟩ := ending
  exact value

theorem refuse_secludes {β : Type} {err : QueryError} {next : α → Compile β} {post : β → Prop}
    (hs : s.Secludes id) : Secludes id o s (throw err >>= next) post := by
  rw [Computation.throw_bind]
  exact .throw hs

theorem supplied_stable (q : VarId × Expr) (s t : CompileState) (_ : (seclusion id).leads s t)
    (confines : q.2.Confines id False frame) : q.2.Confines id False frame := confines

theorem adopting_secludes (hs : s.Secludes id) (callee : Scope) : (adopting s callee).Secludes id ∧
    ((callee.adoptInto s.scope).run s.supply).1.2.Frees id (callee.find? id).isSome := by
  obtain ⟨adopted, adoption⟩ := callee.adoptInto_adoption s.scope s.supply
  refine ⟨⟨Nat.lt_of_lt_of_le hs.drawn adoption.grows, hs.functions⟩, fun x v found same => ?_,
    fun known => ?_⟩
  · have fresh := (callee.drawn_adoptInto s.scope s.supply found).1
    have drawn := hs.drawn
    rw [same] at fresh
    omega
  · obtain ⟨v, found⟩ := Option.isSome_iff_exists.1 known
    have same := (Scope.mem_layout_of_find? found).1
    exact same ▸ adoption.known v (List.mem_of_find?_eq_some found)

end Compile

section

variable {simplify : Expr → Compile Expr} (simplifies : SimplifierSecludes id o simplify)

section Substitution

variable {x : Substitution}

/-- Code that may refer to the variable if `x` replaces it. Without a reference it stays as it is. -/
theorem whereUsed_secludes {e : Expr} {rewritten : Compile Expr} (hs : s.Secludes id)
    (he : e.Confines id False (frame ∨ x.id = id))
    (made : Compile.Secludes id o s rewritten (·.Confines id False frame)) :
    Compile.Secludes id o s (whereUsed x e rewritten) (·.Confines id False frame) := by
  unfold whereUsed
  split
  · exact made
  · rename_i unused
    refine .pure hs ?_
    by_cases same : x.id = id
    · have unused : e.references id = false := same ▸ Bool.eq_false_iff.2 unused
      exact (he.unused unused).mono (fun h => h) False.elim
    · exact he.mono (fun h => h) fun allowed => allowed.resolve_right same

variable (new : x.new.Confines id False frame)

mutual
theorem Expr.substitute_secludes (simplifies : SimplifierSecludes id o simplify)
    (new : x.new.Confines id False frame) : (e : Expr) → (s : CompileState) → s.Secludes id →
    e.Confines id False (frame ∨ x.id = id) →
    Compile.Secludes id o s (e.substitute simplify x) (·.Confines id False frame)
  | .value v, _, hs, he => .pure hs (Expr.confines_value.2 (Expr.confines_value.1 he))
  | .focus _, _, hs, _ => .pure hs Expr.confines_focus
  | .error _, _, hs, _ => .pure hs Expr.confines_error
  | .literal _ _, _, hs, he => .pure hs (Expr.confines_literal.2 (Expr.confines_literal.1 he))
  | .var ref, _, hs, he => by
    refine .pure hs ?_
    split
    · exact new
    · rename_i apart
      refine Expr.confines_var.2 fun same => (Expr.confines_var.1 he same).resolve_right fun eq => ?_
      exact apart (by rw [eq, same, beq_self_eq_true])
  | .letIn id' slot bound body, s, hs, he => by
    refine whereUsed_secludes hs he ?_
    rw [Expr.confines_letIn] at he
    refine (bound.substitute_secludes simplifies new s hs he.1).bind fun bound' t ht _ hbound => ?_
    refine (body.substitute_secludes simplifies new t ht he.2).bind fun body' u hu _ hbody => ?_
    exact simplifies _ _ u hu (Expr.confines_letIn.2 ⟨hbound, hbody⟩)
  | .branch cond yes no span, s, hs, he => by
    refine whereUsed_secludes hs he ?_
    rw [Expr.confines_branch] at he
    refine (cond.substitute_secludes simplifies new s hs he.1).bind fun cond' t ht _ hcond => ?_
    refine (yes.substitute_secludes simplifies new t ht he.2.1).bind fun yes' u hu _ hyes => ?_
    refine (no.substitute_secludes simplifies new u hu he.2.2).bind fun no' v hv _ hno => ?_
    exact simplifies _ _ v hv (Expr.confines_branch.2 ⟨hcond, hyes, hno⟩)
  | .arith op lhs rhs span, s, hs, he => by
    refine whereUsed_secludes hs he ?_
    rw [Expr.confines_arith] at he
    refine (lhs.substitute_secludes simplifies new s hs he.1).bind fun lhs' t ht _ hl => ?_
    refine (rhs.substitute_secludes simplifies new t ht he.2).bind fun rhs' u hu _ hr => ?_
    exact simplifies _ _ u hu (Expr.confines_arith.2 ⟨hl, hr⟩)
  | .compare op lhs rhs span, s, hs, he => by
    refine whereUsed_secludes hs he ?_
    rw [Expr.confines_compare] at he
    refine (lhs.substitute_secludes simplifies new s hs he.1).bind fun lhs' t ht _ hl => ?_
    refine (rhs.substitute_secludes simplifies new t ht he.2).bind fun rhs' u hu _ hr => ?_
    exact simplifies _ _ u hu (Expr.confines_compare.2 ⟨hl, hr⟩)
  | .seq items, s, hs, he => by
    refine whereUsed_secludes hs he ?_
    rw [Expr.confines_seq] at he
    refine (substituteList_secludes simplifies new items s hs he).bind fun items' t ht _ hitems => ?_
    exact simplifies _ _ t ht (Expr.confines_seq.2 hitems)
  | .treat expr type span, s, hs, he => by
    refine whereUsed_secludes hs he ?_
    rw [Expr.confines_treat] at he
    refine (expr.substitute_secludes simplifies new s hs he).bind fun expr' t ht _ hexpr => ?_
    exact simplifies _ _ t ht (Expr.confines_treat.2 hexpr)
  | .builtin function args span, s, hs, he => by
    refine whereUsed_secludes hs he ?_
    rw [Expr.confines_builtin] at he
    refine (substituteList_secludes simplifies new args s hs he).bind fun args' t ht _ hargs => ?_
    exact simplifies _ _ t ht (Expr.confines_builtin.2 hargs)
  | .closure c, s, hs, he => by
    refine whereUsed_secludes hs he ?_
    rw [Expr.confines_closure] at he
    refine (c.substitute_secludes simplifies new s hs he.1 he.2).bind fun c' t ht _ hc => ?_
    exact simplifies _ _ t ht (Expr.confines_closure.2 hc)
  | .partialApply site target args, s, hs, he => by
    refine whereUsed_secludes hs he ?_
    rw [Expr.confines_partialApply] at he
    refine (target.substitute_secludes simplifies new s hs he.1).bind fun target' t ht _ htarget => ?_
    refine (substituteList_secludes simplifies new args t ht he.2).bind fun args' u hu _ hargs => ?_
    exact simplifies _ _ u hu (Expr.confines_partialApply.2 ⟨htarget, hargs⟩)
  | .call site args, s, hs, he => by
    refine whereUsed_secludes hs he ?_
    rw [Expr.confines_call] at he
    refine (substituteList_secludes simplifies new args s hs he).bind fun args' t ht _ hargs => ?_
    exact simplifies _ _ t ht (Expr.confines_call.2 hargs)
  | .dynamicCall site callee args, s, hs, he => by
    refine whereUsed_secludes hs he ?_
    rw [Expr.confines_dynamicCall] at he
    refine (callee.substitute_secludes simplifies new s hs he.1).bind fun callee' t ht _ hcallee => ?_
    refine (substituteList_secludes simplifies new args t ht he.2).bind fun args' u hu _ hargs => ?_
    exact simplifies _ _ u hu (Expr.confines_dynamicCall.2 ⟨hcallee, hargs⟩)

theorem substituteList_secludes (simplifies : SimplifierSecludes id o simplify)
    (new : x.new.Confines id False frame) : (es : List Expr) → (s : CompileState) → s.Secludes id →
    (∀ e ∈ es, e.Confines id False (frame ∨ x.id = id)) →
    Compile.Secludes id o s (substituteList simplify x es) fun es' =>
      ∀ e ∈ es', e.Confines id False frame
  | [], _, hs, _ => .pure hs nofun
  | e :: es, s, hs, all => by
    refine (e.substitute_secludes simplifies new s hs (all e (by simp))).bind fun e' t ht _ he => ?_
    refine (substituteList_secludes simplifies new es t ht fun y mem => all y (by simp [mem])).bind
      fun es' u hu _ hes => ?_
    exact .pure hu (List.forall_mem_cons.2 ⟨he, hes⟩)

theorem Closure.substitute_secludes (simplifies : SimplifierSecludes id o simplify)
    (new : x.new.Confines id False frame) : (c : Closure) → (s : CompileState) → s.Secludes id →
    (∀ q ∈ c.captures, q.2.Confines id False (frame ∨ x.id = id)) →
    c.body.Confines id False (False ∧ (c.scope.find? id).isSome) →
    Compile.Secludes id o s (c.substitute simplify x) fun c' =>
      (∀ q ∈ c'.captures, q.2.Confines id False frame) ∧
        c'.body.Confines id False (False ∧ (c'.scope.find? id).isSome)
  | ⟨_, _, _, _, _, _, captures, _, _, _⟩, s, hs, hcaptures, hbody =>
    (substituteSupplies_secludes simplifies new captures s hs hcaptures).bind fun _ _ ht _ hcaptures' =>
      .pure ht ⟨hcaptures', hbody⟩

theorem substituteSupplies_secludes (simplifies : SimplifierSecludes id o simplify)
    (new : x.new.Confines id False frame) : (es : List (VarId × Expr)) → (s : CompileState) →
    s.Secludes id → (∀ q ∈ es, q.2.Confines id False (frame ∨ x.id = id)) →
    Compile.Secludes id o s (substituteSupplies simplify x es) fun es' =>
      ∀ q ∈ es', q.2.Confines id False frame
  | [], _, hs, _ => .pure hs nofun
  | (key, e) :: es, s, hs, all => by
    refine (e.substitute_secludes simplifies new s hs (all (key, e) (by simp))).bind fun e' t ht _ he => ?_
    refine (substituteSupplies_secludes simplifies new es t ht fun y mem => all y (by simp [mem])).bind
      fun es' u hu _ hes => ?_
    exact .pure hu (List.forall_mem_cons.2 ⟨he, hes⟩)
end

end Substitution

include simplifies

namespace Compile

theorem bindValue_secludes (hs : s.Secludes id) {v : Variable} {value body : Expr} (span : Span)
    (hvalue : value.Confines id False frame) (hbody : body.Confines id False frame) :
    Secludes id o s (bindValue simplify v value body span) (·.Confines id False frame) := by
  have bound : ∀ (value : Expr) (t : CompileState), t.Secludes id → value.Confines id False frame →
      Secludes id o t (simplify (.letIn v.id v.slot value body)) (·.Confines id False frame) :=
    fun value t ht hvalue => simplifies _ _ t ht (Expr.confines_letIn.2 ⟨hvalue, hbody⟩)
  unfold bindValue
  dsimp only
  split
  · split
    · exact bound value s hs hvalue
    · exact (simplifies _ _ s hs (Expr.confines_treat.2 hvalue)).bind fun value' t ht _ hvalue' =>
        bound value' t ht hvalue'
  · exact bound value s hs hvalue

theorem expand_secludes (hs : s.Secludes id) (callee : Scope) {body : Expr}
    (hbody : body.Confines id True (callee.find? id).isSome) {bindings : List (VarId × Expr)}
    (values : ∀ q ∈ bindings, q.2.Confines id False frame) (origins : List Origin) (span : Span) :
    Secludes id o s (expand simplify callee body bindings origins span) (·.Confines id False frame) := by
  obtain ⟨entered, frees⟩ := adopting_secludes hs callee
  have run : expand simplify callee body bindings origins span o s = (do
      let body ← draw (body.copy ((callee.adoptInto s.scope).run s.supply).1.2)
      bindings.reverse.foldlM (fun body q => do
        bindValue simplify (← ofFaulty (((callee.adoptInto s.scope).run s.supply).1.2.require q.1))
          q.2 body span) (body.addOrigins origins) : Compile Expr) o (adopting s callee) := rfl
  refine Pact.Keeps.after run run trivial ?_
  generalize ((callee.adoptInto s.scope).run s.supply).1.2 = table at frees
  generalize adopting s callee = start at entered
  refine (draw_secludes entered (body.copy_confines start.supply frees entered.drawn hbody)).bind
    fun copied t ht _ hcopied => ?_
  have each : ∀ (body : Expr) (q : VarId × Expr) (t : CompileState), t.Secludes id →
      body.Confines id False frame → q.2.Confines id False frame →
      Secludes id o t (do bindValue simplify (← ofFaulty (table.require q.1)) q.2 body span)
        (·.Confines id False frame) :=
    fun body q t ht hbody hq => (ofFaulty_secludes ht _).skip fun v u hu _ =>
      bindValue_secludes simplifies hu span hq hbody
  exact Pact.Keeps.foldlM supplied_stable (fun body q => each body q) bindings.reverse _ t ht
    ((hcopied.mono (fun h => h) False.elim).mapSites _ _) fun q mem => values q (List.mem_reverse.1 mem)

end Compile

namespace Closure

theorem substituteBody_secludes {key : VarId} {body new : Expr} (hs : s.Secludes id)
    (hbody : body.Confines id False (frame ∨ key = id)) (hnew : new.Confines id False frame) :
    Compile.Secludes id o s (do Compile.deferred (← Compile.attempt (body.substitute simplify ⟨key, new⟩)))
      (·.Confines id False frame) :=
  (Pact.Keeps.attempt (body.substitute_secludes simplifies hnew s hs hbody)).bind
    fun _ _ ht _ hresult => Pact.Keeps.deferred ht hresult fun _ => Expr.confines_error

theorem substituteAll_secludes : (constants : List (VarId × Expr)) → (body : Expr) →
    (s : CompileState) → s.Secludes id → (∀ q ∈ constants, ∀ frame, q.2.Confines id False frame) →
    body.Confines id False (id ∈ constants.map Prod.fst) →
    Compile.Secludes id o s (constants.foldlM (fun body (key, new) => do
      Compile.deferred (← Compile.attempt (body.substitute simplify ⟨key, new⟩))) body)
      (·.Confines id False False)
  | [], _, _, hs, _, hbody => .pure hs (hbody.mono (fun h => h) List.not_mem_nil)
  | (key, new) :: constants, body, s, hs, all, hbody => by
    rw [List.foldlM_cons]
    have hbody : body.Confines id False (id ∈ constants.map Prod.fst ∨ key = id) :=
      hbody.mono (fun h => h) fun mem => (List.mem_cons.1 mem).symm.imp_right Eq.symm
    refine (substituteBody_secludes simplifies hs hbody (all (key, new) List.mem_cons_self _)).bind
      fun body' t ht _ hbody' => ?_
    exact substituteAll_secludes constants body' t ht
      (fun q mem => all q (List.mem_cons_of_mem _ mem)) hbody'

/-- The body of a closure once its constants are moved there, from wherever it referred to them. -/
theorem propagate_secludes {c : Closure} (hs : s.Secludes id)
    (values : ∀ q ∈ c.captures, q.2.isValue = true → ∀ frame, q.2.Confines id False frame)
    (hbody : c.body.Confines id False (id ∈ (c.captures.filter (·.2.isValue)).map Prod.fst)) :
    Compile.Secludes id o s (c.propagate simplify) fun c' =>
      c'.captures = c.captures.filter (!·.2.isValue) ∧ c'.body.Confines id False False := by
  have constant : ∀ q ∈ c.captures.filter (·.2.isValue), ∀ frame, q.2.Confines id False frame :=
    fun q mem => values q (List.mem_filter.1 mem).1 (List.mem_filter.1 mem).2
  unfold propagate
  dsimp only
  split
  · rename_i none
    rw [List.isEmpty_iff] at none
    refine .pure hs ⟨?_, hbody.mono (fun h => h) (by simp [none])⟩
    rw [List.filter_eq_nil_iff] at none
    exact (List.filter_eq_self.2 fun q mem => by simpa using none q mem).symm
  · have inner : CompileState.Secludes id { s with scope := c.scope } := ⟨hs.drawn, hs.functions⟩
    refine (Compile.inScope_secludes c.scope
      (substituteAll_secludes simplifies _ c.body _ inner constant hbody)).bind fun x t ht _ hx => ?_
    refine Pact.Keeps.bind (.same (.ofExcept ht)) fun body u hu _ found => ?_
    refine (Pact.Keeps.read hu).skip fun options v hv _ => .pure hv ⟨rfl, ?_⟩
    exact (hx body found.1).keepTail _

theorem simplifyWith_secludes {c : Closure} (hs : s.Secludes id)
    (hc : (Expr.closure c).Confines id False frame) :
    Compile.Secludes id o s (c.simplifyWith simplify) (·.Confines id False frame) := by
  have parts := Expr.confines_closure.1 hc
  unfold simplifyWith
  split
  · exact .pure hs hc
  · have values : ∀ q ∈ c.captures, q.2.isValue = true → ∀ frame, q.2.Confines id False frame := by
      intro q mem constant frame'
      have confines := parts.1 q mem
      cases same : q.2 with
      | value v =>
        rw [same] at confines
        exact Expr.confines_value.2 (Expr.confines_value.1 confines)
      | _ => rw [same] at constant; cases constant
    refine (propagate_secludes simplifies hs values
      (parts.2.mono (fun h => h) fun h => h.1.elim)).bind fun c' t ht _ ⟨captures, body⟩ => ?_
    have body : c'.body.Confines id False (False ∧ (c'.scope.find? id).isSome) :=
      body.mono (fun h => h) False.elim
    split
    · have made : Yields (liftSupply (c'.toItem [])) fun f => (Value.func f).Confines id :=
        Yields.liftSupply fun supply => ⟨Nat.le_refl _, c'.confines_toItem body supply⟩
      exact (Compile.draw_secludes ht (made.gives t.supply)).bind fun f u hu _ hf =>
        .pure hu (Expr.confines_value.2 hf)
    · refine .pure ht (Expr.confines_closure.2 ⟨?_, body⟩)
      rw [captures]
      exact fun q mem => parts.1 q (List.mem_filter.1 mem).1

end Closure

namespace Compile

theorem simplifyCall_secludes {site : CallSite} {args : List Expr} (hs : s.Secludes id)
    (he : (Expr.call site args).Confines id False frame) :
    Secludes id o s (simplifyCall simplify site args) (·.Confines id False frame) := by
  have hargs := Expr.confines_call.1 he
  refine (Pact.Keeps.entryOf hs site.target).bind fun entry t ht _ found => ?_
  obtain ⟨found, rfl⟩ := found
  split
  · rename_i body present
    refine (Pact.Keeps.read ht).skip fun _ u hu _ => ?_
    split
    · exact (expand_secludes simplifies hu entry.scope (ht.functions _ entry body found present)
        (fun q mem => hargs q.2 (List.of_mem_zip mem).2) [] site.span).bind fun e v hv _ he =>
          .pure hv (he.keepTail _)
    · exact .pure hu he
  · exact .pure ht he

theorem expandClosure_secludes {site : DynamicSite} {c : Closure} {args : List Expr}
    (hs : s.Secludes id) (captures : ∀ q ∈ c.captures, q.2.Confines id False frame)
    (hbody : c.body.Confines id False (False ∧ (c.scope.find? id).isSome))
    (hargs : ∀ e ∈ args, e.Confines id False frame) :
    Secludes id o s (expandClosure simplify site c args) (·.Confines id False frame) := by
  refine (expand_secludes simplifies hs c.scope (hbody.mono (fun _ => trivial) And.right)
    (fun q mem => ?_) _ c.span).bind fun e t ht _ he => .pure ht (he.keepTail _)
  rcases List.mem_append.1 mem with arg | capture
  · exact hargs q.2 (List.of_mem_zip arg).2
  · exact captures q capture

omit simplifies

theorem foldPartial_secludes (site : PartialSite) {target : Expr} {args : List Expr} (hs : s.Secludes id)
    (htarget : target.Confines id False frame) (hargs : ∀ e ∈ args, e.Confines id False frame) :
    Secludes id o s
      (match target, Expr.values? args with
        | .value (.func item), some supplied => do
          return .value (.func (← draw (PartialApplication.make item supplied site.holes site.span)))
        | _, _ => return .partialApply site target args) fun e : Expr => e.Confines id False frame := by
  split
  · rename_i item supplied found
    have hitem := Expr.confines_value.1 htarget
    have values := Expr.confines_of_values? hargs found
    have made := PartialApplication.confines_make hitem values site.holes site.span
    exact (draw_secludes hs (made.gives s.supply)).bind fun f u hu _ hf =>
      .pure hu (Expr.confines_value.2 hf)
  · exact .pure hs (Expr.confines_partialApply.2 ⟨htarget, hargs⟩)

theorem simplifyPartial_secludes {site : PartialSite} {target : Expr} {args : List Expr}
    (hs : s.Secludes id) (he : (Expr.partialApply site target args).Confines id False frame) :
    Secludes id o s (simplifyPartial site target args) (·.Confines id False frame) := by
  obtain ⟨htarget, hargs⟩ := Expr.confines_partialApply.1 he
  unfold simplifyPartial
  dsimp only
  split
  · exact foldPartial_secludes site hs htarget hargs
  · rename_i type _
    split
    · exact refuse_secludes hs
    · exact (ofFaulty_secludes hs _).skip fun left t ht _ =>
        foldPartial_secludes { site with type := some left } ht htarget hargs

theorem checkCallee_secludes (hs : s.Secludes id) (site : DynamicSite) (callee : Expr) (arity : Nat) :
    Secludes id o s (checkCallee site callee arity) fun _ => True := by
  unfold checkCallee
  split
  · exact .pure hs trivial
  · dsimp only
    split
    · exact refuse_secludes hs
    · refine (Pact.Keeps.read hs).skip fun _ t ht _ => ?_
      split
      · split
        · exact refuse_secludes ht
        · split
          · exact .throw ht
          · exact .pure ht trivial
      · exact .pure ht trivial

include simplifies

theorem simplifyDynamicCall_secludes {site : DynamicSite} {callee : Expr} {args : List Expr}
    (hs : s.Secludes id) (he : (Expr.dynamicCall site callee args).Confines id False frame) :
    Secludes id o s (simplifyDynamicCall simplify site callee args) (·.Confines id False frame) := by
  obtain ⟨hcallee, hargs⟩ := Expr.confines_dynamicCall.1 he
  have closure : ∀ (c : Closure) (t : CompileState), t.Secludes id →
      (∀ q ∈ c.captures, q.2.Confines id False frame) →
      c.body.Confines id False (False ∧ (c.scope.find? id).isSome) → Secludes id o t
        (if c.inlinable o && !site.inlinedFrom.contains c.origin then
          expandClosure simplify site c args
        else return .dynamicCall site callee args) (·.Confines id False frame) := by
    intro c t ht captures body
    split
    · exact expandClosure_secludes simplifies ht captures body hargs
    · exact .pure ht he
  refine (checkCallee_secludes hs site callee args.length).skip fun _ t ht _ => ?_
  refine (Pact.Keeps.read ht).bind fun _ u hu _ same => ?_
  obtain ⟨rfl, rfl⟩ := same
  split
  · rename_i item
    have hitem := Expr.confines_value.1 hcallee
    split
    · exact simplifies _ _ u hu (Expr.confines_builtin.2 hargs)
    · rename_i params captured body scope code
      split
      · refine (expand_secludes simplifies hu scope (hitem item .item _ _ _ _ code) (fun q mem => ?_) _
          site.span).bind fun e v hv _ he => .pure hv (he.keepTail _)
        rcases List.mem_append.1 mem with arg | capture
        · exact hargs q.2 (List.of_mem_zip arg).2
        · obtain ⟨y, among, rfl⟩ := List.mem_map.1 capture
          exact Expr.confines_value.2 (hitem.captured code among)
      · exact .pure hu he
  · rename_i c
    obtain ⟨captures, body⟩ := Expr.confines_closure.1 hcallee
    exact closure c u hu captures body
  · rename_i c
    obtain ⟨captures, body⟩ := Expr.confines_literal.1 hcallee
    exact closure c u hu (fun q mem => (captures q mem).mono (fun h => h) False.elim) body
  · exact .pure hu he

end Compile

theorem Expr.simplifyWith_secludes {e : Expr} (hs : s.Secludes id) (he : e.Confines id False frame) :
    Compile.Secludes id o s (e.simplifyWith simplify) (·.Confines id False frame) := by
  cases e with
  | letIn key slot bound body =>
    obtain ⟨hbound, hbody⟩ := confines_letIn.1 he
    rw [simplifyWith]
    split
    · exact body.substitute_secludes simplifies hbound s hs (hbody.mono (fun h => h) .inl)
    · split
      · exact .pure hs hbody
      · exact .pure hs he
  | branch => exact .pure hs he.foldBranch
  | arith => exact .pure hs he.foldArith
  | compare => exact .pure hs he.foldCompare
  | seq => exact .pure hs he.foldSeq
  | treat => exact .pure hs he.foldTreat
  | builtin => exact .pure hs he.foldBuiltin
  | closure c => exact Closure.simplifyWith_secludes simplifies hs he
  | literal site c =>
    obtain ⟨captures, body⟩ := confines_literal.1 he
    have hc : (Expr.closure c).Confines id False False := confines_closure.2 ⟨captures, body⟩
    refine (Closure.simplifyWith_secludes simplifies hs hc).bind fun e t ht _ made => .pure ht ?_
    unfold Compile.rewrapLiteral
    split
    · exact confines_literal.2 (confines_closure.1 made)
    · exact made.mono (fun h => h) False.elim
  | partialApply => exact Compile.simplifyPartial_secludes hs he
  | call => exact Compile.simplifyCall_secludes simplifies hs he
  | dynamicCall => exact Compile.simplifyDynamicCall_secludes simplifies hs he
  | value | var | focus | error => exact .pure hs he

end

theorem Expr.simplify_secludes (id : VarId) (o : Options) (budget : Nat) :
    SimplifierSecludes id o (Expr.simplify budget) := by
  induction budget with
  | zero => exact fun _ _ _ _ _ => .same (.of_fault rfl)
  | succ budget ih => exact fun _ _ _ hs he => simplifyWith_secludes ih hs he

end QueryFunctions
