import QueryFunctions.Proofs.Termination.Expansion

/-! The lets of an expansion. What is bound to the variables of the expanded body stands around it in the
order in which it is listed, the first outermost. The simplifier puts constants and variables in place of
the variables that they are bound to, and it drops what is not referred to, if its flags tell neither of
updates nor of random draws; all other lets stay where they are. -/
namespace QueryFunctions

namespace Expr

/-- A let of it may go, once its variable is not referred to. -/
def droppable (e : Expr) : Bool := e.isAtom || !e.has .upd && !e.has .ndt

inductive Supplies (value : Expr) : Expr → Prop
  | plain : Supplies value value
  | checked {type span} : Supplies value (.treat value type span)
  /-- The check of a constant that fails. -/
  | refused {e} : value.isAtom = true → Supplies value (.error e)

/-- The expression is `core` with a let around it for each of the values, the first outermost. Values
that are droppable may go without. -/
inductive Bound (core : Expr) : List Expr → Expr → Prop
  | core : Bound core [] core
  | letIn {value new values body id slot} : value.Supplies new → new.isAtom = false →
    Bound core values body → Bound core (value :: values) (.letIn id slot new body)
  | dropped {value values e} : value.droppable = true → Bound core values e →
    Bound core (value :: values) e

/-- All variables that the expression refers to were drawn from the supply. -/
def Drawn (supply : Supply) (e : Expr) : Prop :=
  ∀ id, e.references id = true → id.index < supply.nextVar

/-- What becomes of the code when constants and variables are put in place of variables. -/
inductive Instance (o : Options) (e : Expr) : Expr → Prop
  | refl : Instance o e e
  | substitute {e' e'' sub budget s t} : Instance o e e' → sub.new.isAtom = true →
    e'.substitute (simplify budget) sub o s = (.ok (.ok e''), t) → Instance o e e''

theorem Instance.trans {o : Options} {e e' e'' : Expr} (first : e.Instance o e')
    (second : e'.Instance o e'') : e.Instance o e'' := by
  induction second with
  | refl => exact first
  | substitute _ atom run ih => exact .substitute ih atom run

theorem simplify_ok {o : Options} {s t : CompileState} {budget : Nat} {e e' : Expr}
    (run : simplify budget e o s = (.ok (.ok e'), t)) :
    ∃ less, e.simplifyWith (simplify less) o s = (.ok (.ok e'), t) := by
  cases budget with
  | zero => cases run
  | succ less => exact ⟨less, run⟩

namespace Supplies

variable {value new : Expr}

theorem of_foldTreat (value : Expr) (type : SeqType) (span : Span) :
    value.Supplies (value.foldTreat type span) := by
  unfold foldTreat
  cases constant : value.value? with
  | none => dsimp only; split <;> constructor
  | some v =>
    have atom : value.isAtom = true := by
      cases value with
      | value => rfl
      | _ => cases constant
    dsimp only
    split
    · exact .plain
    · exact .refused atom

theorem references (h : value.Supplies new) {id : VarId} (unused : value.references id = false) :
    new.references id = false := by
  cases h with
  | plain | checked => exact unused
  | refused => rfl

theorem droppable (h : value.Supplies new) (idle : new.droppable = true) : value.droppable = true := by
  cases h with
  | plain => exact idle
  | checked =>
    have still : (!value.has .upd && !value.has .ndt) = true := idle
    rw [Expr.droppable, still, Bool.or_true]
  | refused atom => rw [Expr.droppable, atom, Bool.true_or]

end Supplies

namespace Bound

variable {o : Options} {s t : CompileState} {budget : Nat} {core body e : Expr} {values : List Expr}

theorem markTails (h : Bound core values e) : Bound core.markTails values e.markTails := by
  induction h with
  | core => exact .core
  | letIn supplies open_ _ ih =>
    rw [Expr.markTails]
    exact .letIn supplies open_ ih
  | dropped idle _ ih => exact .dropped idle ih

theorem simplify_letIn {value new : Expr} {id : VarId} {slot : Nat} (supplies : value.Supplies new)
    (open_ : new.isAtom = false) (h : Bound core values body)
    (run : simplify budget (.letIn id slot new body) o s = (.ok (.ok e), t)) :
    Bound core (value :: values) e := by
  obtain ⟨less, run⟩ := simplify_ok run
  rw [simplifyWith, open_, if_neg Bool.false_ne_true] at run
  split at run
  · rename_i idle
    cases run
    refine .dropped (supplies.droppable ?_) h
    simp only [Bool.and_eq_true] at idle
    rw [Expr.droppable, idle.1.2, idle.2, Bool.and_self, Bool.or_true]
  · cases run
    exact .letIn supplies open_ h

theorem substitute (sub : Substitution) (atom : sub.new.isAtom = true) (h : Bound core values body)
    (apart : ∀ value ∈ values, value.references sub.id = false)
    (run : body.substitute (simplify budget) sub o s = (.ok (.ok e), t)) :
    ∃ core', core.Instance o core' ∧ Bound core' values e := by
  induction h generalizing s t e with
  | core => exact ⟨e, .substitute .refl atom run, .core⟩
  | @letIn value new values body id slot supplies open_ h ih =>
    rw [List.forall_mem_cons] at apart
    cases used : (Expr.letIn id slot new body).references sub.id with
    | false =>
      rw [substitute_of_unused _ used] at run
      cases run
      exact ⟨core, .refl, .letIn supplies open_ h⟩
    | true =>
      rw [Expr.substitute, whereUsed, if_pos used,
        substitute_of_unused _ (supplies.references apart.1), pure_bind] at run
      obtain ⟨body', u, inner, outer⟩ := Computation.of_bind_ok run
      obtain ⟨core', made, h'⟩ := ih apart.2 inner
      exact ⟨core', made, h'.simplify_letIn supplies open_ outer⟩
  | dropped idle _ ih =>
    obtain ⟨core', made, h'⟩ := ih (List.forall_mem_cons.1 apart).2 run
    exact ⟨core', made, .dropped idle h'⟩

end Bound

end Expr

namespace Compile

variable {o : Options} {s t : CompileState} {budget : Nat} {core body e : Expr} {values : List Expr}

theorem simplify_letIn_bound {v : Variable} {value new : Expr} (supplies : value.Supplies new)
    (h : core.Bound values body) (apart : ∀ value ∈ values, value.references v.id = false)
    (run : Expr.simplify budget (.letIn v.id v.slot new body) o s = (.ok (.ok e), t)) :
    ∃ core', core.Instance o core' ∧ core'.Bound (value :: values) e := by
  cases atom : new.isAtom with
  | false => exact ⟨core, .refl, h.simplify_letIn supplies atom run⟩
  | true =>
    obtain ⟨less, run⟩ := Expr.simplify_ok run
    rw [Expr.simplifyWith, if_pos atom] at run
    obtain ⟨core', made, h'⟩ := h.substitute ⟨v.id, new⟩ atom apart run
    have idle : new.droppable = true := by rw [Expr.droppable, atom, Bool.true_or]
    exact ⟨core', made, .dropped (supplies.droppable idle) h'⟩

theorem bindValue_bound {v : Variable} {value : Expr} {span : Span} (h : core.Bound values body)
    (apart : ∀ value ∈ values, value.references v.id = false)
    (run : bindValue (Expr.simplify budget) v value body span o s = (.ok (.ok e), t)) :
    ∃ core', core.Instance o core' ∧ core'.Bound (value :: values) e := by
  unfold bindValue at run
  generalize v.declared = declared at run
  cases declared with
  | none => exact simplify_letIn_bound .plain h apart run
  | some type =>
    dsimp only at run
    generalize value.inferredType.instanceOf type = fits at run
    cases fits with
    | true => exact simplify_letIn_bound .plain h apart run
    | false =>
      obtain ⟨new, u, checked, bound⟩ := Computation.of_bind_ok run
      obtain ⟨less, folded⟩ := Expr.simplify_ok checked
      cases folded
      exact simplify_letIn_bound (.of_foldTreat value type span) h apart bound

theorem bindAll_bound {table : Renaming} {span : Span} :
    (bindings : List (VarId × Expr)) → {core body : Expr} → {values : List Expr} →
    {s : CompileState} → core.Bound values body →
    (∀ value ∈ bindings.map Prod.snd ++ values, ∀ id v, table.find? id = some v →
      value.references v.id = false) →
    (bindings.foldlM (fun body x => do
      bindValue (Expr.simplify budget) (← ofFaulty (table.require x.1)) x.2 body span) body :
        Compile Expr) o s = (.ok (.ok e), t) →
    ∃ core', core.Instance o core' ∧ core'.Bound ((bindings.map Prod.snd).reverse ++ values) e
  | [], core, _, _, _, h, _, run => by
    cases run
    exact ⟨core, .refl, h⟩
  | (old, value) :: bindings, core, body, values, s, h, apart, run => by
    rw [List.foldlM_cons] at run
    obtain ⟨body', u, first, rest⟩ := Computation.of_bind_ok run
    obtain ⟨v, _, known, bound⟩ := Computation.of_bind_ok first
    have found : table.find? old = some v := by
      refine Renaming.require_eq_ok_iff.1 ?_
      cases required : table.require old with
      | error f =>
        rw [required] at known
        cases known
      | ok w =>
        rw [required] at known
        cases known
        rfl
    have mem : ∀ x ∈ values, x ∈ ((old, value) :: bindings).map Prod.snd ++ values := fun x mem =>
      List.mem_append_right _ mem
    obtain ⟨core₁, made₁, h₁⟩ := bindValue_bound h (fun x hx => apart x (mem x hx) old v found) bound
    obtain ⟨core₂, made₂, h₂⟩ := bindAll_bound bindings h₁ (fun x hx => apart x (by
      simpa [or_comm, or_left_comm, or_assoc] using hx)) rest
    refine ⟨core₂, made₁.trans made₂, ?_⟩
    rwa [List.map_cons, List.reverse_cons, List.append_assoc, List.singleton_append]

theorem of_draw_ok {α : Type} {act : Supplied α} {a : α}
    (run : draw act o s = (.ok (.ok a), t)) : ∃ supply, act s.supply = .ok (a, supply) := by
  unfold draw at run
  split at run
  · rename_i drawn
    cases run
    exact ⟨_, drawn⟩
  · cases run

/-- An expansion binds the values in the order in which they are listed, around a copy of the body. -/
theorem expand_bound {callee : Scope} {bindings : List (VarId × Expr)} {origins : List Origin}
    {span : Span} (drawn : ∀ value ∈ bindings.map Prod.snd, value.Drawn s.supply)
    (run : expand (Expr.simplify budget) callee body bindings origins span o s = (.ok (.ok e), t)) :
    ∃ table supply copied core, body.copy table (adopting s callee).supply = .ok (copied, supply) ∧
      (copied.addOrigins origins).Instance o core ∧ core.Bound (bindings.map Prod.snd) e := by
  have opened : expand (Expr.simplify budget) callee body bindings origins span o s = (do
      let body ← draw (body.copy ((callee.adoptInto s.scope).run s.supply).1.2)
      bindings.reverse.foldlM (fun body p => do
        let v ← ofFaulty (((callee.adoptInto s.scope).run s.supply).1.2.require p.1)
        bindValue (Expr.simplify budget) v p.2 body span) (body.addOrigins origins) : Compile Expr)
      o (adopting s callee) := rfl
  rw [opened] at run
  obtain ⟨copied, u, copies, binds⟩ := Computation.of_bind_ok run
  have fresh : ∀ value ∈ bindings.reverse.map Prod.snd ++ [], ∀ id v,
      ((callee.adoptInto s.scope).run s.supply).1.2.find? id = some v →
        value.references v.id = false := by
    intro value mem id v found
    refine Bool.eq_false_iff.2 fun refers => ?_
    have old : v.id.index < s.supply.nextVar := drawn value (by simpa using mem) v.id refers
    exact absurd (callee.drawn_adoptInto s.scope s.supply found).1 (Nat.not_le.2 old)
  obtain ⟨core, made, h⟩ := bindAll_bound bindings.reverse .core fresh binds
  rw [List.append_nil, List.map_reverse, List.reverse_reverse] at h
  obtain ⟨supply, copies⟩ := of_draw_ok copies
  exact ⟨_, supply, copied, core, copies, made, h⟩

end Compile

end QueryFunctions
