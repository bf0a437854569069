import QueryFunctions.Compile.Expansion
import QueryFunctions.Proofs.Form.Rewriting
import QueryFunctions.Proofs.Hygiene.Basic
import QueryFunctions.Proofs.Law.Supplied
import QueryFunctions.Proofs.Scope.Sound
import QueryFunctions.Proofs.Termination.Rewriting

/-! Copied code refers to no variable that was drawn before it was copied, but for variables that are free
in the original: all others are replaced, in closures by variables that are drawn for the copy. Local
rewriting adds no references to variables. -/
namespace QueryFunctions

variable {id : VarId} {own frame : Prop}

/-- Code that is copied with the renaming comes out without references to `id`: nothing is renamed to that,
and `id` itself is renamed if the code refers to it. -/
structure Renaming.Frees (r : Renaming) (id : VarId) (frame : Prop) : Prop where
  apart : ∀ x v, r.find? x = some v → v.id ≠ id
  known : frame → (r.find? id).isSome

theorem Scope.frees_copy (s : Scope) {supply : Supply} (drawn : id.index < supply.nextVar) :
    (s.copy.run supply).1.2.Frees id (s.find? id).isSome := by
  obtain ⟨same, -⟩ := copied_vars s.vars supply
  have size : s.vars.length = ((s.vars.mapM fun v => return { v with id := ← Supply.freshVar } :
      StateM Supply (List Variable)).run supply).1.length := by rw [same, List.length_mapIdx]
  have table (x : VarId) := copy_table s.vars .empty _ x size
  refine ⟨fun x v found eq => ?_, fun known => (table id).2 (.inl ?_)⟩
  · rcases (table x).1 v found with ⟨w, pair, -⟩ | none
    · have copied := (List.of_mem_zip pair).2
      rw [same] at copied
      obtain ⟨i, lt, rfl⟩ := List.mem_mapIdx.1 copied
      have index : supply.nextVar + i = id.index := congrArg VarId.index eq
      omega
    · cases none
  · simpa [find?] using known

mutual
theorem Expr.copy_confines : (e : Expr) → {r : Renaming} → {frame : Prop} → (s : Supply) →
    r.Frees id frame → id.index < s.nextVar → e.Confines id True frame →
    Gives (fun _ => True) s (e.copy r) fun e' _ => e'.Confines id False False
  | .value v, _, _, _, _, _, he => Gives.pure (Expr.confines_value.2 (Expr.confines_value.1 he))
  | .focus _, _, _, _, _, _, _ => Gives.pure Expr.confines_focus
  | .error _, _, _, _, _, _, _ => Gives.pure Expr.confines_error
  | .var ref, r, _, _, frees, _, he => by
    rw [Expr.copy]
    split
    · rename_i v found
      exact Gives.pure (Expr.confines_var.2 (frees.apart _ v found))
    · rename_i none
      refine Gives.pure (Expr.confines_var.2 fun same => ?_)
      have known := frees.known (Expr.confines_var.1 he same)
      rw [← same, none] at known
      cases known
  | .letIn _ _ bound body, r, _, s, frees, drawn, he => by
    rw [Expr.confines_letIn] at he
    rw [Expr.copy]
    refine (bound.copy_confines s frees drawn he.1).bind fun bound' t hst hbound => ?_
    refine (body.copy_confines t frees (Nat.lt_of_lt_of_le drawn hst) he.2).bind
      fun body' u _ hbody => Gives.pure ?_
    exact Expr.confines_letIn.2 ⟨hbound, hbody⟩
  | .branch cond yes no _, r, _, s, frees, drawn, he => by
    rw [Expr.confines_branch] at he
    rw [Expr.copy]
    refine (cond.copy_confines s frees drawn he.1).bind fun cond' t hst hcond => ?_
    have later := Nat.lt_of_lt_of_le drawn hst
    refine (yes.copy_confines t frees later he.2.1).bind fun yes' u htu hyes => ?_
    refine (no.copy_confines u frees (Nat.lt_of_lt_of_le later htu) he.2.2).bind
      fun no' v _ hno => Gives.pure ?_
    exact Expr.confines_branch.2 ⟨hcond, hyes, hno⟩
  | .arith _ lhs rhs _, r, _, s, frees, drawn, he => by
    rw [Expr.confines_arith] at he
    rw [Expr.copy]
    refine (lhs.copy_confines s frees drawn he.1).bind fun lhs' t hst hl => ?_
    refine (rhs.copy_confines t frees (Nat.lt_of_lt_of_le drawn hst) he.2).bind
      fun rhs' u _ hr => Gives.pure ?_
    exact Expr.confines_arith.2 ⟨hl, hr⟩
  | .compare _ lhs rhs _, r, _, s, frees, drawn, he => by
    rw [Expr.confines_compare] at he
    rw [Expr.copy]
    refine (lhs.copy_confines s frees drawn he.1).bind fun lhs' t hst hl => ?_
    refine (rhs.copy_confines t frees (Nat.lt_of_lt_of_le drawn hst) he.2).bind
      fun rhs' u _ hr => Gives.pure ?_
    exact Expr.confines_compare.2 ⟨hl, hr⟩
  | .seq items, r, _, s, frees, drawn, he => by
    rw [Expr.confines_seq] at he
    rw [Expr.copy]
    exact (copyList_confines items s frees drawn he).bind fun _ _ _ hitems =>
      Gives.pure (Expr.confines_seq.2 hitems)
  | .treat expr _ _, r, _, s, frees, drawn, he => by
    rw [Expr.confines_treat] at he
    rw [Expr.copy]
    exact (expr.copy_confines s frees drawn he).bind fun _ _ _ hexpr =>
      Gives.pure (Expr.confines_treat.2 hexpr)
  | .builtin _ args _, r, _, s, frees, drawn, he => by
    rw [Expr.confines_builtin] at he
    rw [Expr.copy]
    exact (copyList_confines args s frees drawn he).bind fun _ _ _ hargs =>
      Gives.pure (Expr.confines_builtin.2 hargs)
  | .closure c, r, _, s, frees, drawn, he => by
    rw [Expr.confines_closure] at he
    rw [Expr.copy]
    exact (c.copy_confines s frees drawn he.1 he.2).bind fun _ _ _ hc =>
      Gives.pure (Expr.confines_closure.2 ⟨hc.1, hc.2.mono (fun h => h) False.elim⟩)
  | .literal _ c, r, _, s, frees, drawn, he => by
    rw [Expr.confines_literal] at he
    rw [Expr.copy]
    have frees : r.Frees id False := { frees with known := False.elim }
    exact (c.copy_confines s frees drawn he.1 he.2).bind fun _ _ _ hc =>
      Gives.pure (Expr.confines_literal.2 ⟨hc.1, hc.2.mono (fun h => h) False.elim⟩)
  | .partialApply _ target args, r, _, s, frees, drawn, he => by
    rw [Expr.confines_partialApply] at he
    rw [Expr.copy]
    refine (target.copy_confines s frees drawn he.1).bind fun target' t hst htarget => ?_
    refine (copyList_confines args t frees (Nat.lt_of_lt_of_le drawn hst) he.2).bind
      fun args' u _ hargs => Gives.pure ?_
    exact Expr.confines_partialApply.2 ⟨htarget, hargs⟩
  | .call _ args, r, _, s, frees, drawn, he => by
    rw [Expr.confines_call] at he
    rw [Expr.copy]
    exact (copyList_confines args s frees drawn he).bind fun _ _ _ hargs =>
      Gives.pure (Expr.confines_call.2 hargs)
  | .dynamicCall _ callee args, r, _, s, frees, drawn, he => by
    rw [Expr.confines_dynamicCall] at he
    rw [Expr.copy]
    refine (callee.copy_confines s frees drawn he.1).bind fun callee' t hst hcallee => ?_
    refine (copyList_confines args t frees (Nat.lt_of_lt_of_le drawn hst) he.2).bind
      fun args' u _ hargs => Gives.pure ?_
    exact Expr.confines_dynamicCall.2 ⟨hcallee, hargs⟩

theorem copyList_confines : (es : List Expr) → {r : Renaming} → {frame : Prop} → (s : Supply) →
    r.Frees id frame → id.index < s.nextVar → (∀ e ∈ es, e.Confines id True frame) →
    Gives (fun _ => True) s (copyList r es) fun es' _ => ∀ e ∈ es', e.Confines id False False
  | [], _, _, _, _, _, _ => Gives.pure nofun
  | e :: es, r, _, s, frees, drawn, all => by
    rw [copyList]
    refine (e.copy_confines s frees drawn (all e (by simp))).bind fun e' t hst he => ?_
    refine (copyList_confines es t frees (Nat.lt_of_lt_of_le drawn hst)
      fun x mem => all x (by simp [mem])).bind fun es' u _ hes => Gives.pure ?_
    exact List.forall_mem_cons.2 ⟨he, hes⟩

theorem Closure.copy_confines : (c : Closure) → {r : Renaming} → {frame : Prop} → (s : Supply) →
    r.Frees id frame → id.index < s.nextVar → (∀ q ∈ c.captures, q.2.Confines id True frame) →
    c.body.Confines id True (True ∧ (c.scope.find? id).isSome) →
    Gives (fun _ => True) s (c.copy r) fun c' _ =>
      (∀ q ∈ c'.captures, q.2.Confines id False False) ∧ c'.body.Confines id False False
  | ⟨_, params, body, _, _, scope, captures, _, _, _⟩, r, _, s, frees, drawn, hcaptures, hbody => by
    rw [Closure.copy]
    refine Gives.bind (Gives.liftSupply (scope.below_copy s).1) fun made t hst same => ?_
    have inner : made.2.Frees id (True ∧ (scope.find? id).isSome) := by
      have frees := scope.frees_copy drawn
      rw [← same] at frees
      exact { frees with known := fun known => frees.known known.2 }
    refine (made.2.gives_names_required (fun _ => trivial) params t).bind fun params' u htu _ => ?_
    have later := Nat.lt_of_lt_of_le drawn (Nat.le_trans hst htu)
    refine (body.copy_confines u inner later hbody).bind fun body' v huv hbody' => ?_
    refine (copySupplies_confines made.2 captures v frees (Nat.lt_of_lt_of_le later huv) hcaptures).bind
      fun captures' w _ hcaptures' => Gives.pure ⟨hcaptures', hbody'⟩

theorem copySupplies_confines (inner : Renaming) : (es : List (VarId × Expr)) → {r : Renaming} →
    {frame : Prop} → (s : Supply) → r.Frees id frame → id.index < s.nextVar →
    (∀ q ∈ es, q.2.Confines id True frame) → Gives (fun _ => True) s (copySupplies r inner es)
      fun es' _ => ∀ q ∈ es', q.2.Confines id False False
  | [], _, _, _, _, _, _ => Gives.pure nofun
  | (key, e) :: es, r, _, s, frees, drawn, all => by
    rw [copySupplies]
    refine (inner.gives_required (fun _ => trivial) key s).bind fun v t _ same => ?_
    subst same
    refine (e.copy_confines t frees drawn (all (key, e) (by simp))).bind fun e' u htu he => ?_
    refine (copySupplies_confines inner es u frees (Nat.lt_of_lt_of_le drawn htu)
      fun q mem => all q (by simp [mem])).bind fun es' v _ hes => Gives.pure ?_
    exact List.forall_mem_cons.2 ⟨he, hes⟩
end

namespace Value

theorem confines_of_arith {op : ArithOp} {lhs rhs v : Value} {span : Span}
    (computed : op.apply lhs rhs span = .ok v) : v.Confines id := by
  rcases op.apply_cases lhs rhs span with h | ⟨e, h⟩ | ⟨i, h⟩ <;> rw [h] at computed <;> cases computed
  · exact confines_empty
  · exact confines_int

theorem confines_ofName (f : FuncItem) : (ofName f).Confines id := by
  unfold ofName
  split
  · exact confines_str
  · exact confines_empty

end Value

namespace Expr

theorem confines_of_values? {es : List Expr} {vs : List Value}
    (all : ∀ e ∈ es, e.Confines id own frame) (found : values? es = some vs) :
    ∀ v ∈ vs, v.Confines id := by
  induction es generalizing vs with
  | nil =>
    cases found
    exact nofun
  | cons e es ih =>
    simp only [values?, List.mapM_cons, Option.bind_eq_bind, Option.pure_def,
      Option.bind_eq_some_iff] at found
    obtain ⟨v, constant, vs', rest, same⟩ := found
    cases same
    have head := all e (by simp)
    cases e with
    | value u =>
      cases constant
      exact List.forall_mem_cons.2 ⟨confines_value.1 head, ih (fun x hx => all x (by simp [hx])) rest⟩
    | _ => cases constant

theorem confines_ofResult {result : Except QueryError Value}
    (value : ∀ v, result = .ok v → v.Confines id) : (ofResult result).Confines id own frame := by
  cases result with
  | ok v => exact confines_value.2 (value v rfl)
  | error err => exact confines_error

theorem Confines.foldBranch {cond yes no : Expr} {span : Span}
    (h : (Expr.branch cond yes no span).Confines id own frame) :
    (Expr.foldBranch cond yes no span).Confines id own frame := by
  have parts := confines_branch.1 h
  unfold Expr.foldBranch
  split
  · split
    · exact parts.2.1
    · exact parts.2.2
    · exact h
  · exact h

theorem Confines.foldArith {op : ArithOp} {lhs rhs : Expr} {span : Span}
    (h : (Expr.arith op lhs rhs span).Confines id own frame) :
    (Expr.foldArith op lhs rhs span).Confines id own frame := by
  unfold Expr.foldArith
  split
  · exact confines_ofResult fun v => Value.confines_of_arith
  · exact h

theorem Confines.foldCompare {op : CompareOp} {lhs rhs : Expr} {span : Span}
    (h : (Expr.compare op lhs rhs span).Confines id own frame) :
    (Expr.foldCompare op lhs rhs span).Confines id own frame := by
  unfold Expr.foldCompare
  split
  · rename_i l r _ _
    cases op.apply l r span with
    | error err => exact confines_error
    | ok b => exact confines_value.2 Value.confines_bool
  · exact h

theorem Confines.foldSeq {items : List Expr} (h : (Expr.seq items).Confines id own frame) :
    (Expr.foldSeq items).Confines id own frame := by
  unfold Expr.foldSeq
  split
  · rename_i vs found
    exact confines_value.2 (Value.confines_ofItems (confines_of_values? (confines_seq.1 h) found))
  · exact h

theorem Confines.foldTreat {e : Expr} {type : SeqType} {span : Span}
    (h : (Expr.treat e type span).Confines id own frame) :
    (Expr.foldTreat e type span).Confines id own frame := by
  have inner := confines_treat.1 h
  unfold Expr.foldTreat
  split
  · split
    · exact inner
    · exact confines_error
  · split
    · exact inner
    · exact h

theorem Confines.foldBuiltin {function : Builtin} {args : List Expr} {span : Span}
    (h : (Expr.builtin function args span).Confines id own frame) :
    (Expr.foldBuiltin function args span).Confines id own frame := by
  have ofMap {f : FuncItem → Value} {v : Value} (each : ∀ g, (f g).Confines id) :
      (ofResult ((v.asFunc span).map f)).Confines id own frame := by
    cases v.asFunc span with
    | error err => exact confines_error
    | ok g => exact confines_value.2 (each g)
  unfold Expr.foldBuiltin
  split
  · exact confines_value.2 Value.confines_int
  · exact ofMap fun _ => Value.confines_int
  · exact ofMap Value.confines_ofName
  · exact h

theorem Confines.mapSites {e : Expr} (h : e.Confines id own frame) (f : CallSite → CallSite)
    (g : DynamicSite → DynamicSite) : (e.mapSites f g).Confines id own frame := by
  induction h with
  | value items => exact .value items
  | var same => exact .var same
  | closure _ _ captures body =>
    refine confines_closure.2 ?_
    rw [Closure.mapSites_eq]
    exact ⟨List.forall_mem_map.2 captures, body⟩
  | literal _ _ captures body =>
    refine confines_literal.2 ?_
    rw [Closure.mapSites_eq]
    exact ⟨List.forall_mem_map.2 captures, body⟩
  | @inner _ _ e shares _ parts =>
    refine .inner ?_ ?_
    · cases e <;> exact shares
    · rw [parts_mapSites]
      exact List.forall_mem_map.2 parts

theorem Confines.markTails : {e : Expr} → e.Confines id own frame → e.markTails.Confines id own frame
  | .branch _ _ _ _, h => by
    rw [confines_branch] at h
    exact confines_branch.2 ⟨h.1, h.2.1.markTails, h.2.2.markTails⟩
  | .letIn _ _ _ _, h => by
    rw [confines_letIn] at h
    exact confines_letIn.2 ⟨h.1, h.2.markTails⟩
  | .call _ _, h => confines_call.2 (confines_call.1 h)
  | .dynamicCall _ _ _, h => confines_dynamicCall.2 (confines_dynamicCall.1 h)
  | .value _, h | .var _, h | .arith _ _ _ _, h | .compare _ _ _ _, h | .seq _, h | .focus _, h
  | .treat _ _ _, h | .builtin _ _ _, h | .error _, h | .closure _, h | .literal _ _, h
  | .partialApply _ _ _, h => h

theorem Confines.keepTail {e : Expr} (h : e.Confines id own frame) (tail : Bool) :
    (Compile.keepTail tail e).Confines id own frame := by
  unfold Compile.keepTail
  split
  · exact h.markTails
  · exact h

end Expr

theorem Closure.confines_toItem {c : Closure}
    (body : c.body.Confines id own (own ∧ (c.scope.find? id).isSome)) (supply : Supply) :
    (Value.func ((c.toItem []).run supply).1).Confines id := by
  refine Value.confines_func ?_ ?_
  · rintro _ _ _ _ ⟨⟩
    exact body.mono (fun _ => trivial) And.right
  · rintro _ _ _ _ ⟨⟩
    exact nofun

namespace PartialApplication

theorem confines_arrange (holes : List Nat) {params : List Expr}
    (all : ∀ e ∈ params, e.Confines id own frame) (pos count : Nat) (supplied : List Value)
    (values : ∀ v ∈ supplied, v.Confines id) :
    ∀ e ∈ arrange holes params pos count supplied, e.Confines id own frame := by
  induction count generalizing pos supplied with
  | zero => exact nofun
  | succ count ih =>
    unfold arrange
    split
    · rename_i param found
      obtain ⟨i, -, hi⟩ := Option.bind_eq_some_iff.1 found
      exact List.forall_mem_cons.2 ⟨all _ (List.mem_of_getElem? hi), ih _ _ values⟩
    · refine List.forall_mem_cons.2 ⟨Expr.confines_value.2 ?_,
        ih _ _ fun v mem => values v (List.mem_of_mem_tail mem)⟩
      cases supplied with
      | nil => exact Value.confines_empty
      | cons v vs => exact values v (by simp)

theorem confines_make {item : FuncItem} {supplied : List Value}
    (hitem : (Value.func item).Confines id) (values : ∀ v ∈ supplied, v.Confines id)
    (holes : List Nat) (span : Span) :
    Yields (make item supplied holes span) fun f => (Value.func f).Confines id := by
  have opened : Yields (liftSupply (openVariables item {} 0 holes)) fun _ => True :=
    Yields.liftSupply fun supply => ⟨openVariables_grows item 0 holes {} supply, trivial⟩
  refine Yields.bind opened fun scope _ => ?_
  refine Yields.bind Yields.freshOrigin fun origin _ => Yields.bind Yields.freshItem fun itemId _ => ?_
  refine Yields.bind (Yields.ofExcept fun _ _ => trivial) fun type (_ : True) => Yields.pure ?_
  -- The arguments that are left open are variables of the new scope.
  have params : ∀ e ∈ scope.vars.map fun v => Expr.var ⟨v.id, v.slot, v.type, span⟩,
      e.Confines id True (scope.find? id).isSome :=
    List.forall_mem_map.2 fun v mem => Expr.confines_var.2 fun same => same ▸ Scope.isSome_find?_of_mem mem
  refine Value.confines_func ?_ ?_
  · rintro _ _ _ _ ⟨⟩
    exact Expr.confines_dynamicCall.2
      ⟨Expr.confines_value.2 hitem, confines_arrange holes params _ _ _ values⟩
  · rintro _ _ _ _ ⟨⟩
    exact nofun

end PartialApplication

end QueryFunctions
