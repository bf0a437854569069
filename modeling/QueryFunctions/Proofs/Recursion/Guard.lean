import QueryFunctions.Compile.Simplify
import QueryFunctions.Proofs.Compile.Substitution
import QueryFunctions.Proofs.Law.Compiling
import QueryFunctions.Proofs.Recursion.Names
import QueryFunctions.Proofs.Recursion.Folding
import QueryFunctions.Proofs.Scope.Layout

/-! A guard on functions that are not to be expanded, and the pact between the simplifier and the one
that is guarded. The registry stays as it is while code is simplified, so they do the same if it lets
none of these functions be expanded. -/
namespace QueryFunctions

namespace Expr

/-- The simplifier with a guard on the functions `kept`: the alarm goes off where a call of one of them
is to be replaced by its body. -/
def simplifyGuarded (kept : FuncId → Bool) (alarm : Compile Expr → Compile Expr) :
    (budget : Nat) → Expr → Compile Expr
  | 0, _ => Compile.fault .budget
  | budget + 1, .call site args => do
    let step := (Expr.call site args).simplifyWith (simplifyGuarded kept alarm budget)
    let entry ← Compile.entryOf site.target
    if kept site.target && entry.inlinable (← read) then alarm step else step
  | budget + 1, e => e.simplifyWith (simplifyGuarded kept alarm budget)

end Expr

/-- None of the functions `kept` may be expanded. -/
def Registry.Withholds (r : Registry) (kept : FuncId → Bool) (o : Options) : Prop :=
  ∀ id e, kept id = true → r.find? id = some e → e.inlinable o = false

/-- What is named by a body that may be expanded is allowed where the function is. -/
def Registry.Inlines (r : Registry) (P : FuncId → Prop) (o : Options) : Prop :=
  ∀ id e body, P id → r.find? id = some e → e.inlinable o = true → e.body = some body → body.Within P

def simplifierPact (kept : FuncId → Bool) (o : Options) (r : Registry) : Pact CompileState where
  holds s := s.registry = r
  leads s t := t.scope.Retains s.scope
  refl s := .refl s.scope
  trans first second := second.trans first
  near _ := r.Withholds kept o
  back _ := id

/-- Both computations do the same, and make code that names only functions that satisfy `P`. -/
abbrev Compile.Withins (P : FuncId → Prop) (kept : FuncId → Bool) (o : Options) (r : Registry)
    (s : CompileState) (act act' : Compile Expr) : Prop :=
  (simplifierPact kept o r).Keeps o s act act' fun e _ => e.Within P

def SimplifierWithin (P : FuncId → Prop) (kept : FuncId → Bool) (o : Options) (r : Registry)
    (simplify simplify' : Expr → Compile Expr) : Prop :=
  ∀ e s, s.registry = r → e.Within P → Compile.Withins P kept o r s (simplify e) (simplify' e)

variable {P : FuncId → Prop} {kept : FuncId → Bool} {o : Options} {r : Registry} {s : CompileState}
  {α : Type}

namespace Compile

theorem draw_withins (hs : s.registry = r) {act : Supplied α} {post : α → Prop}
    (drawn : Yields act post) :
    (simplifierPact kept o r).Keeps o s (draw act) (draw act) fun a _ => post a := by
  refine .same fun result t run => ?_
  cases h : act s.supply with
  | error f =>
    simp only [draw, h] at run
    cases run
  | ok p =>
    simp only [draw, h] at run
    cases run
    exact ⟨hs, .refl _, by rintro _ ⟨⟩; exact (drawn s.supply p.1 p.2 h).2⟩

theorem entryOf_run (id : FuncId) :
    entryOf id o s = match s.registry.find? id with
      | some entry => (.ok (.ok entry), s)
      | none => (.error (.missingFunction id), s) := by
  have here : (get : Compile CompileState) o s = (.ok (.ok s), s) := rfl
  unfold entryOf
  rw [Computation.run_bind, here]
  dsimp only
  cases s.registry.find? id <;> rfl

theorem entryOf_withins (hs : s.registry = r) (id : FuncId) :
    (simplifierPact kept o r).Keeps o s (entryOf id) (entryOf id) fun e t =>
      r.find? id = some e ∧ t = s := by
  subst hs
  exact .entryOf rfl id

theorem ofFaulty_withins (hs : s.registry = r) {result : Except Fault α} :
    (simplifierPact kept o r).Keeps o s (ofFaulty result) (ofFaulty result) fun a t =>
      result = .ok a ∧ t = s := by
  cases result with
  | ok a => exact .pure hs ⟨rfl, rfl⟩
  | error f => exact .same (.of_fault rfl)

theorem deferred_withins (hs : s.registry = r) {result : Except QueryError Expr}
    (value : ∀ e, result = .ok e → e.Within P) :
    Withins P kept o r s (deferred result) (deferred result) :=
  Pact.Keeps.deferred hs value fun _ => Expr.within_error

theorem inScope_withins (inner : Scope) {act act' : Compile α} {post : α → Prop}
    (made : (simplifierPact kept o r).Keeps o { s with scope := inner } act act' fun a _ => post a) :
    (simplifierPact kept o r).Keeps o s (inScope inner act) (inScope inner act') fun x _ =>
      (∀ a, x.1 = .ok a → post a) ∧ x.2.Retains inner := by
  refine (Pact.Keeps.inScope inner made (fun t ht _ => ⟨ht, .refl _⟩) fun _ => id).mono
    fun x u _ _ ending => ?_
  obtain ⟨t, -, scope, retains, value⟩ := ending
  exact ⟨value, scope ▸ retains⟩

end Compile

section Substitution

variable {simplify simplify' : Expr → Compile Expr}
  (simplifies : SimplifierWithin P kept o r simplify simplify') {x : Substitution}

theorem whereUsed_withins {e : Expr} {rewritten rewritten' : Compile Expr} (hs : s.registry = r)
    (he : e.Within P) (made : Compile.Withins P kept o r s rewritten rewritten') :
    Compile.Withins P kept o r s (whereUsed x e rewritten) (whereUsed x e rewritten') := by
  unfold whereUsed
  split
  · exact made
  · exact .pure hs he

variable (new : x.new.Within P)

mutual
theorem Expr.substitute_withins (simplifies : SimplifierWithin P kept o r simplify simplify')
    (new : x.new.Within P) : (e : Expr) → (s : CompileState) → s.registry = r → e.Within P →
    Compile.Withins P kept o r s (e.substitute simplify x) (e.substitute simplify' x)
  | .value _, _, hs, he | .focus _, _, hs, he | .error _, _, hs, he | .literal _ _, _, hs, he =>
    .pure hs he
  | .var ref, _, hs, he => by
    refine .pure hs ?_
    split
    · exact new
    · exact he
  | .letIn id slot bound body, s, hs, he => by
    refine whereUsed_withins hs he ?_
    rw [Expr.within_letIn] at he
    refine (Expr.substitute_withins simplifies new bound s hs he.1).bind fun bound' t ht _ hbound => ?_
    refine (Expr.substitute_withins simplifies new body t ht he.2).bind fun body' u hu _ hbody => ?_
    exact simplifies _ u hu (Expr.within_letIn.2 ⟨hbound, hbody⟩)
  | .branch cond yes no span, s, hs, he => by
    refine whereUsed_withins hs he ?_
    rw [Expr.within_branch] at he
    refine (Expr.substitute_withins simplifies new cond s hs he.1).bind fun cond' t ht _ hcond => ?_
    refine (Expr.substitute_withins simplifies new yes t ht he.2.1).bind fun yes' u hu _ hyes => ?_
    refine (Expr.substitute_withins simplifies new no u hu he.2.2).bind fun no' v hv _ hno => ?_
    exact simplifies _ v hv (Expr.within_branch.2 ⟨hcond, hyes, hno⟩)
  | .arith op lhs rhs span, s, hs, he => by
    refine whereUsed_withins hs he ?_
    rw [Expr.within_arith] at he
    refine (Expr.substitute_withins simplifies new lhs s hs he.1).bind fun lhs' t ht _ hl => ?_
    refine (Expr.substitute_withins simplifies new rhs t ht he.2).bind fun rhs' u hu _ hr => ?_
    exact simplifies _ u hu (Expr.within_arith.2 ⟨hl, hr⟩)
  | .compare op lhs rhs span, s, hs, he => by
    refine whereUsed_withins hs he ?_
    rw [Expr.within_compare] at he
    refine (Expr.substitute_withins simplifies new lhs s hs he.1).bind fun lhs' t ht _ hl => ?_
    refine (Expr.substitute_withins simplifies new rhs t ht he.2).bind fun rhs' u hu _ hr => ?_
    exact simplifies _ u hu (Expr.within_compare.2 ⟨hl, hr⟩)
  | .seq items, s, hs, he => by
    refine whereUsed_withins hs he ?_
    rw [Expr.within_seq] at he
    refine (substituteList_withins simplifies new items s hs he).bind fun items' t ht _ hitems => ?_
    exact simplifies _ t ht (Expr.within_seq.2 hitems)
  | .treat expr type span, s, hs, he => by
    refine whereUsed_withins hs he ?_
    rw [Expr.within_treat] at he
    refine (Expr.substitute_withins simplifies new expr s hs he).bind fun expr' t ht _ hexpr => ?_
    exact simplifies _ t ht (Expr.within_treat.2 hexpr)
  | .builtin function args span, s, hs, he => by
    refine whereUsed_withins hs he ?_
    rw [Expr.within_builtin] at he
    refine (substituteList_withins simplifies new args s hs he).bind fun args' t ht _ hargs => ?_
    exact simplifies _ t ht (Expr.within_builtin.2 hargs)
  | .closure c, s, hs, he => by
    refine whereUsed_withins hs he ?_
    rw [Expr.within_closure] at he
    refine (Closure.substitute_withins simplifies new c s hs he).bind fun c' t ht _ hc => ?_
    exact simplifies _ t ht (Expr.within_closure.2 hc)
  | .partialApply site target args, s, hs, he => by
    refine whereUsed_withins hs he ?_
    rw [Expr.within_partialApply] at he
    refine (Expr.substitute_withins simplifies new target s hs he.1).bind fun target' t ht _ htarget => ?_
    refine (substituteList_withins simplifies new args t ht he.2).bind fun args' u hu _ hargs => ?_
    exact simplifies _ u hu (Expr.within_partialApply.2 ⟨htarget, hargs⟩)
  | .call site args, s, hs, he => by
    refine whereUsed_withins hs he ?_
    rw [Expr.within_call] at he
    refine (substituteList_withins simplifies new args s hs he.2).bind fun args' t ht _ hargs => ?_
    exact simplifies _ t ht (Expr.within_call.2 ⟨he.1, hargs⟩)
  | .dynamicCall site callee args, s, hs, he => by
    refine whereUsed_withins hs he ?_
    rw [Expr.within_dynamicCall] at he
    refine (Expr.substitute_withins simplifies new callee s hs he.1).bind fun callee' t ht _ hcallee => ?_
    refine (substituteList_withins simplifies new args t ht he.2).bind fun args' u hu _ hargs => ?_
    exact simplifies _ u hu (Expr.within_dynamicCall.2 ⟨hcallee, hargs⟩)

theorem substituteList_withins (simplifies : SimplifierWithin P kept o r simplify simplify')
    (new : x.new.Within P) : (es : List Expr) → (s : CompileState) → s.registry = r →
    (∀ e ∈ es, e.Within P) → (simplifierPact kept o r).Keeps o s
      (substituteList simplify x es) (substituteList simplify' x es) fun es' _ => ∀ e ∈ es', e.Within P
  | [], _, hs, _ => .pure hs nofun
  | e :: es, s, hs, all => by
    refine (Expr.substitute_withins simplifies new e s hs (all e (by simp))).bind fun e' t ht _ he => ?_
    refine (substituteList_withins simplifies new es t ht fun y mem => all y (by simp [mem])).bind
      fun es' u hu _ hes => ?_
    exact .pure hu (List.forall_mem_cons.2 ⟨he, hes⟩)

theorem Closure.substitute_withins (simplifies : SimplifierWithin P kept o r simplify simplify')
    (new : x.new.Within P) : (c : Closure) → (s : CompileState) → s.registry = r →
    c.Within P → (simplifierPact kept o r).Keeps o s (c.substitute simplify x)
      (c.substitute simplify' x) fun c' _ => c'.Within P
  | ⟨_, _, _, _, _, _, captures, _, _, _⟩, s, hs, hc =>
    (substituteSupplies_withins simplifies new captures s hs hc.1).bind fun _ _ ht _ hcaptures =>
      .pure ht ⟨hcaptures, hc.2⟩

theorem substituteSupplies_withins (simplifies : SimplifierWithin P kept o r simplify simplify')
    (new : x.new.Within P) : (es : List (VarId × Expr)) → (s : CompileState) →
    s.registry = r → (∀ q ∈ es, q.2.Within P) → (simplifierPact kept o r).Keeps o s
      (substituteSupplies simplify x es) (substituteSupplies simplify' x es)
      fun es' _ => ∀ q ∈ es', q.2.Within P
  | [], _, hs, _ => .pure hs nofun
  | (id, e) :: es, s, hs, all => by
    refine (Expr.substitute_withins simplifies new e s hs (all (id, e) (by simp))).bind fun e' t ht _ he => ?_
    refine (substituteSupplies_withins simplifies new es t ht fun y mem => all y (by simp [mem])).bind
      fun es' u hu _ hes => ?_
    exact .pure hu (List.forall_mem_cons.2 ⟨he, hes⟩)
end

end Substitution

end QueryFunctions
