import QueryFunctions.Compile.Expansion
import QueryFunctions.Proofs.Current.Basic
import QueryFunctions.Proofs.Form.Copying
import QueryFunctions.Proofs.Form.Items
import QueryFunctions.Proofs.Form.Rewriting
import QueryFunctions.Proofs.Termination.Rewriting

/-! Copies are current wherever the variables that they are copied to are listed, even if those have other
slots and types than the originals: each reference takes over the slot and the type of its new variable.
Local rewriting keeps code current too. -/
namespace QueryFunctions

/-- The renaming leads each variable that is known on one side to one that is known on the other. -/
structure Renaming.Leads (r : Renaming) (known known' : Listing) : Prop where
  found : ∀ {id slot type}, known id slot type → (r.find? id).isSome = true
  listed : ∀ {id v}, r.find? id = some v → known' v.id v.slot v.type

theorem Scope.Sound.leads_copy {s : Scope} {supply : Supply} (h : s.Sound supply) (start : Supply) :
    (s.copy.run start).1.2.Leads s.Lists (s.copy.run start).1.1.Lists where
  found lists := Option.isSome_iff_exists.2
    ((h.copy start).2.2.find? (Scope.isSome_find?_iff.1 (Scope.isSome_of_lists lists)))
  listed found := by
    obtain ⟨-, -, there, -⟩ := h.find?_copy found
    exact Scope.lists_of_find? there

namespace Scope

variable {s t : Scope} {supply : Supply}

theorem keeps_add {id : VarId} (name : String) (declared : Option SeqType) (pinned : Bool) :
    s.Keeps (s.add id name declared pinned) := by
  intro other v found
  unfold find? at found ⊢
  rw [add, List.find?_append, found]
  rfl

theorem FreshFor.find?_next (fresh : s.FreshFor supply) : s.find? ⟨supply.nextVar⟩ = none := by
  rw [← Option.not_isSome_iff_eq_none, isSome_find?_iff]
  intro mem
  obtain ⟨p, here, same⟩ := List.mem_map.1 mem
  have lt := fresh p here
  rw [same] at lt
  exact Nat.lt_irrefl _ lt

theorem FreshFor.keeps_adopt (fresh : s.FreshFor supply) (v : Variable) :
    s.Keeps ((s.adopt v).run supply).1.1 := by
  intro other w found
  have apart : other ≠ ⟨supply.nextVar⟩ := by
    rintro rfl
    cases fresh.find?_next.symm.trans found
  refine (find?_update _ _ (fun u => ?_) other).trans ?_
  · split <;> rfl
  · rw [if_neg apart]
    exact keeps_add _ _ _ other w found

theorem find?_adopt (v : Variable) :
    let result := (s.adopt v).run supply
    result.1.1.find? result.1.2.id = some result.1.2 := by
  intro result
  have id : result.1.2.id = ⟨supply.nextVar⟩ := adopted_id s v supply
  have present : (result.1.1.find? ⟨supply.nextVar⟩).isSome = true := by
    rw [isSome_find?_iff, layout_adopt]
    simp
  obtain ⟨w, found⟩ := Option.isSome_iff_exists.1 present
  have same : result.1.2 = w := congrArg (·.getD v) found
  rw [id, found, same]

structure Adopting (target t : Scope) (table : Renaming) (now : Supply) : Prop where
  fresh : t.FreshFor now
  keeps : target.Keeps t
  listed : ∀ id v, table.find? id = some v → t.find? v.id = some v

theorem Adopting.adopt {target : Scope} {table : Renaming} (h : Adopting target t table supply)
    (w : Variable) : Adopting target ((t.adopt w).run supply).1.1
      (table.insert w.id ((t.adopt w).run supply).1.2) ((t.adopt w).run supply).2 := by
  have kept := h.fresh.keeps_adopt w
  refine ⟨freshFor_adopt w h.fresh, h.keeps.trans kept, fun id v found => ?_⟩
  rw [Renaming.find?_insert] at found
  split at found
  · cases found
    exact find?_adopt w
  · exact kept _ _ (h.listed id v found)

theorem FreshFor.adopting {target : Scope} (fresh : target.FreshFor supply) (s : Scope) :
    Adopting target ((s.adoptInto target).run supply).1.1 ((s.adoptInto target).run supply).1.2
      ((s.adoptInto target).run supply).2 :=
  adoptInto_keeps (Adopting target) (fun _ _ _ w adopting => adopting.adopt w) s target supply
    ⟨fresh, .refl target, fun _ _ none => by cases none⟩

end Scope

/-- Code of an adopted scope may be copied to where that is adopted, if nothing that is pending there is
drawn only then. -/
theorem Scope.FreshFor.leads_adoptInto {target : Scope} {supply : Supply}
    (fresh : target.FreshFor supply) (s : Scope) {pending : VarId → Prop}
    (drawn : ∀ id, pending id → id.index < supply.nextVar) :
    ((s.adoptInto target).run supply).1.2.Leads s.Lists
      (((s.adoptInto target).run supply).1.1.Knows pending) where
  found lists := by
    obtain ⟨v, found, -⟩ := lists
    obtain ⟨adopted, adoption⟩ := s.adoptInto_adoption target supply
    have same := (mem_layout_of_find? found).1
    exact same ▸ adoption.known v (List.mem_of_find?_eq_some found)
  listed found := by
    refine ⟨fun pends => ?_, lists_of_find? ((fresh.adopting s).listed _ _ found)⟩
    have late := (s.drawn_adoptInto target supply found).1
    have early := drawn _ pends
    omega

variable {faults : Fault → Prop} {supply : Supply}

mutual
theorem Expr.copy_current : (e : Expr) → {r : Renaming} → {known known' : Listing} → (s : Supply) →
    r.Leads known known' → supply.nextVar ≤ s.nextVar → e.Current supply known →
    Gives faults s (e.copy r) fun e' t => e'.Current t known'
  | .value v, _, _, _, _, _, le, he =>
    Gives.pure (Expr.current_value.2 ((Expr.current_value.1 he).mono le))
  | .focus _, _, _, _, _, _, _, _ => Gives.pure Expr.current_focus
  | .error _, _, _, _, _, _, _, _ => Gives.pure Expr.current_error
  | .var ref, r, _, _, _, leads, _, he => by
    obtain ⟨v, found⟩ := Option.isSome_iff_exists.1 (leads.found (Expr.current_var.1 he))
    rw [Expr.copy, found]
    exact Gives.pure (Expr.current_var.2 (leads.listed found))
  | .letIn id slot bound body, r, _, _, s, leads, le, he => by
    obtain ⟨⟨type, here⟩, hbound, hbody⟩ := Expr.current_letIn.1 he
    obtain ⟨v, found⟩ := Option.isSome_iff_exists.1 (leads.found here)
    rw [Expr.copy, found]
    refine (bound.copy_current s leads le hbound).bind fun bound' t hst hbound' => ?_
    refine (body.copy_current t leads (Nat.le_trans le hst) hbody).bind
      fun body' u htu hbody' => Gives.pure ?_
    exact Expr.current_letIn.2 ⟨⟨v.type, leads.listed found⟩, hbound'.mono htu fun h => h, hbody'⟩
  | .branch cond yes no _, r, _, _, s, leads, le, he => by
    obtain ⟨hcond, hyes, hno⟩ := Expr.current_branch.1 he
    rw [Expr.copy]
    refine (cond.copy_current s leads le hcond).bind fun cond' t hst hcond' => ?_
    have later := Nat.le_trans le hst
    refine (yes.copy_current t leads later hyes).bind fun yes' u htu hyes' => ?_
    refine (no.copy_current u leads (Nat.le_trans later htu) hno).bind
      fun no' v huv hno' => Gives.pure ?_
    exact Expr.current_branch.2 ⟨hcond'.mono (Nat.le_trans htu huv) fun h => h,
      hyes'.mono huv fun h => h, hno'⟩
  | .arith _ lhs rhs _, r, _, _, s, leads, le, he => by
    obtain ⟨hl, hr⟩ := Expr.current_arith.1 he
    rw [Expr.copy]
    refine (lhs.copy_current s leads le hl).bind fun lhs' t hst hl' => ?_
    refine (rhs.copy_current t leads (Nat.le_trans le hst) hr).bind fun rhs' u htu hr' => Gives.pure ?_
    exact Expr.current_arith.2 ⟨hl'.mono htu fun h => h, hr'⟩
  | .compare _ lhs rhs _, r, _, _, s, leads, le, he => by
    obtain ⟨hl, hr⟩ := Expr.current_compare.1 he
    rw [Expr.copy]
    refine (lhs.copy_current s leads le hl).bind fun lhs' t hst hl' => ?_
    refine (rhs.copy_current t leads (Nat.le_trans le hst) hr).bind fun rhs' u htu hr' => Gives.pure ?_
    exact Expr.current_compare.2 ⟨hl'.mono htu fun h => h, hr'⟩
  | .seq items, r, _, _, s, leads, le, he => by
    rw [Expr.copy]
    exact (copyList_current items s leads le (Expr.current_seq.1 he)).bind fun _ _ _ hitems =>
      Gives.pure (Expr.current_seq.2 hitems)
  | .treat e _ _, r, _, _, s, leads, le, he => by
    rw [Expr.copy]
    exact (e.copy_current s leads le (Expr.current_treat.1 he)).bind fun _ _ _ he' =>
      Gives.pure (Expr.current_treat.2 he')
  | .builtin _ args _, r, _, _, s, leads, le, he => by
    rw [Expr.copy]
    exact (copyList_current args s leads le (Expr.current_builtin.1 he)).bind fun _ _ _ hargs =>
      Gives.pure (Expr.current_builtin.2 hargs)
  | .closure c, r, _, _, s, leads, le, he => by
    rw [Expr.copy]
    exact (c.copy_current s leads le he).bind fun _ _ _ hc => Gives.pure hc
  | .literal _ c, r, _, _, s, leads, le, he => by
    rw [Expr.copy]
    exact (c.copy_current s leads le (Expr.current_literal.1 he)).bind fun _ _ _ hc =>
      Gives.pure (Expr.current_literal.2 hc)
  | .partialApply _ target args, r, _, _, s, leads, le, he => by
    obtain ⟨htarget, hargs⟩ := Expr.current_partialApply.1 he
    rw [Expr.copy]
    refine (target.copy_current s leads le htarget).bind fun target' t hst htarget' => ?_
    refine (copyList_current args t leads (Nat.le_trans le hst) hargs).bind
      fun args' u htu hargs' => Gives.pure ?_
    exact Expr.current_partialApply.2 ⟨htarget'.mono htu fun h => h, hargs'⟩
  | .call _ args, r, _, _, s, leads, le, he => by
    rw [Expr.copy]
    exact (copyList_current args s leads le (Expr.current_call.1 he)).bind fun _ _ _ hargs =>
      Gives.pure (Expr.current_call.2 hargs)
  | .dynamicCall _ callee args, r, _, _, s, leads, le, he => by
    obtain ⟨hcallee, hargs⟩ := Expr.current_dynamicCall.1 he
    rw [Expr.copy]
    refine (callee.copy_current s leads le hcallee).bind fun callee' t hst hcallee' => ?_
    refine (copyList_current args t leads (Nat.le_trans le hst) hargs).bind
      fun args' u htu hargs' => Gives.pure ?_
    exact Expr.current_dynamicCall.2 ⟨hcallee'.mono htu fun h => h, hargs'⟩

theorem copyList_current : (es : List Expr) → {r : Renaming} → {known known' : Listing} →
    (s : Supply) → r.Leads known known' → supply.nextVar ≤ s.nextVar →
    (∀ e ∈ es, e.Current supply known) →
    Gives faults s (copyList r es) fun es' t => ∀ e ∈ es', e.Current t known'
  | [], _, _, _, _, _, _, _ => Gives.pure nofun
  | e :: es, r, _, _, s, leads, le, all => by
    rw [copyList]
    refine (e.copy_current s leads le (all e (by simp))).bind fun e' t hst he => ?_
    refine (copyList_current es t leads (Nat.le_trans le hst) fun x mem => all x (by simp [mem])).bind
      fun es' u htu hes => Gives.pure ?_
    exact List.forall_mem_cons.2 ⟨he.mono htu fun h => h, hes⟩

theorem Closure.copy_current : (c : Closure) → {r : Renaming} → {known known' : Listing} →
    (s : Supply) → r.Leads known known' → supply.nextVar ≤ s.nextVar →
    (Expr.closure c).Current supply known →
    Gives faults s (c.copy r) fun c' t => (Expr.closure c').Current t known'
  | ⟨_, params, body, _, _, scope, captures, _, _, _⟩, r, _, _, s, leads, le, he => by
    obtain ⟨fits, hcaptures, hbody⟩ := Expr.current_closure.1 he
    obtain ⟨sound, grows, copied⟩ := fits.sound.copy s
    have inner := fits.sound.leads_copy s
    rw [Closure.copy]
    refine Gives.bind (Gives.liftSupply grows) fun made t hst same => ?_
    rw [← same] at sound copied inner
    obtain ⟨scope', table⟩ := made
    have later := Nat.le_trans le hst
    have mapped : ∀ id : VarId, (scope.find? id).isSome = true → (table.find? id).isSome = true :=
      fun id present => Option.isSome_iff_exists.2 (copied.find? (Scope.isSome_find?_iff.1 present))
    have named : ∀ id : VarId, (scope.find? id).isSome = true →
        (scope'.find? (table.nameOf id)).isSome = true := by
      intro id present
      obtain ⟨v, found⟩ := Option.isSome_iff_exists.1 (mapped id present)
      rw [Renaming.nameOf_of_find? found]
      exact Scope.isSome_of_lists (inner.listed found)
    refine Gives.bind (Renaming.gives_names params (fun p mem => mapped p (fits.params p mem)) t)
      fun params' u htu names => ?_
    subst names
    refine (body.copy_current u inner (Nat.le_trans later htu) hbody).bind fun body' v huv hbody' => ?_
    refine (copySupplies_current table captures v leads (Nat.le_trans later (Nat.le_trans htu huv))
      (fun q mem => mapped q.1 (fits.keys q mem)) hcaptures).bind fun captures' w hvw made =>
        Gives.pure (Expr.current_closure.2 ⟨?_, made.2, hbody'.mono hvw fun h => h⟩)
    refine ⟨sound.mono (Nat.le_trans htu (Nat.le_trans huv hvw)), ?_, fun q mem => ?_⟩
    · exact List.forall_mem_map.2 fun p mem => named p (fits.params p mem)
    · have key : q.1 ∈ captures'.map Prod.fst := List.mem_map_of_mem mem
      rw [made.1, List.map_map] at key
      obtain ⟨x, among, eq⟩ := List.mem_map.1 key
      rw [← eq]
      exact named x.1 (fits.keys x among)

theorem copySupplies_current (inner : Renaming) : (es : List (VarId × Expr)) → {r : Renaming} →
    {known known' : Listing} → (s : Supply) → r.Leads known known' → supply.nextVar ≤ s.nextVar →
    (∀ q ∈ es, (inner.find? q.1).isSome = true) → (∀ q ∈ es, q.2.Current supply known) →
    Gives faults s (copySupplies r inner es) fun es' t =>
      es'.map Prod.fst = (es.map Prod.fst).map inner.nameOf ∧ ∀ q ∈ es', q.2.Current t known'
  | [], _, _, _, _, _, _, _, _ => Gives.pure ⟨rfl, nofun⟩
  | (key, e) :: es, r, _, _, s, leads, le, keys, all => by
    rw [copySupplies]
    obtain ⟨v, found⟩ := Option.isSome_iff_exists.1 (keys (key, e) (by simp))
    rw [Renaming.require_eq_ok_iff.2 found]
    refine Gives.ok_bind ?_
    refine (e.copy_current s leads le (all (key, e) (by simp))).bind fun e' u htu he => ?_
    refine (copySupplies_current inner es u leads (Nat.le_trans le htu)
      (fun q mem => keys q (by simp [mem])) fun q mem => all q (by simp [mem])).bind
        fun es' w huw made => Gives.pure ⟨?_, List.forall_mem_cons.2 ⟨he.mono huw fun h => h, made.2⟩⟩
    rw [List.map_cons, List.map_cons, List.map_cons, made.1, Renaming.nameOf_of_find? found]
end

variable {known : Listing}

namespace Value

theorem current_of_arith {op : ArithOp} {lhs rhs v : Value} {span : Span}
    (computed : op.apply lhs rhs span = .ok v) : v.Current supply := by
  rcases op.apply_cases lhs rhs span with h | ⟨e, h⟩ | ⟨i, h⟩ <;> rw [h] at computed <;> cases computed
  · exact current_empty
  · exact current_int

theorem current_ofName (f : FuncItem) : (ofName f).Current supply := by
  unfold ofName
  split
  · exact current_str
  · exact current_empty

end Value

theorem Closure.Fits.mapSites {c : Closure} (fits : c.Fits supply) (f : CallSite → CallSite)
    (g : DynamicSite → DynamicSite) : (c.mapSites f g).Fits supply := by
  rw [Closure.mapSites_eq]
  exact ⟨fits.sound, fits.params, List.forall_mem_map.2 fits.keys⟩

namespace Expr

theorem current_of_values? {es : List Expr} {vs : List Value}
    (all : ∀ e ∈ es, e.Current supply known) (found : values? es = some vs) :
    ∀ v ∈ vs, v.Current supply := by
  induction es generalizing vs with
  | nil =>
    cases found
    exact nofun
  | cons e es ih =>
    simp only [values?, List.mapM_cons, Option.bind_eq_bind, Option.pure_def,
      Option.bind_eq_some_iff] at found
    obtain ⟨v, constant, vs', rest, same⟩ := found
    cases same
    have head := all e (by simp)
    cases e with
    | value u =>
      cases constant
      exact List.forall_mem_cons.2 ⟨current_value.1 head, ih (fun x hx => all x (by simp [hx])) rest⟩
    | _ => cases constant

theorem current_ofResult {result : Except QueryError Value}
    (value : ∀ v, result = .ok v → v.Current supply) : (ofResult result).Current supply known := by
  cases result with
  | ok v => exact current_value.2 (value v rfl)
  | error err => exact current_error

theorem Current.foldBranch {cond yes no : Expr} {span : Span}
    (h : (Expr.branch cond yes no span).Current supply known) :
    (Expr.foldBranch cond yes no span).Current supply known := by
  have parts := current_branch.1 h
  unfold Expr.foldBranch
  split
  · split
    · exact parts.2.1
    · exact parts.2.2
    · exact h
  · exact h

theorem Current.foldArith {op : ArithOp} {lhs rhs : Expr} {span : Span}
    (h : (Expr.arith op lhs rhs span).Current supply known) :
    (Expr.foldArith op lhs rhs span).Current supply known := by
  unfold Expr.foldArith
  split
  · exact current_ofResult fun v => Value.current_of_arith
  · exact h

theorem Current.foldCompare {op : CompareOp} {lhs rhs : Expr} {span : Span}
    (h : (Expr.compare op lhs rhs span).Current supply known) :
    (Expr.foldCompare op lhs rhs span).Current supply known := by
  unfold Expr.foldCompare
  split
  · rename_i l r _ _
    cases op.apply l r span with
    | error err => exact current_error
    | ok b => exact current_value.2 Value.current_bool
  · exact h

theorem Current.foldSeq {items : List Expr} (h : (Expr.seq items).Current supply known) :
    (Expr.foldSeq items).Current supply known := by
  unfold Expr.foldSeq
  split
  · rename_i vs found
    exact current_value.2 (Value.current_ofItems (current_of_values? (current_seq.1 h) found))
  · exact h

theorem Current.foldTreat {e : Expr} {type : SeqType} {span : Span}
    (h : (Expr.treat e type span).Current supply known) :
    (Expr.foldTreat e type span).Current supply known := by
  have inner := current_treat.1 h
  unfold Expr.foldTreat
  split
  · split
    · exact inner
    · exact current_error
  · split
    · exact inner
    · exact h

theorem Current.foldBuiltin {function : Builtin} {args : List Expr} {span : Span}
    (h : (Expr.builtin function args span).Current supply known) :
    (Expr.foldBuiltin function args span).Current supply known := by
  have ofMap {f : FuncItem → Value} {v : Value} (each : ∀ g, (f g).Current supply) :
      (ofResult ((v.asFunc span).map f)).Current supply known := by
    cases v.asFunc span with
    | error err => exact current_error
    | ok g => exact current_value.2 (each g)
  unfold Expr.foldBuiltin
  split
  · exact current_value.2 Value.current_int
  · exact ofMap fun _ => Value.current_int
  · exact ofMap Value.current_ofName
  · exact h

theorem Current.mapSites {e : Expr} (h : e.Current supply known) (f : CallSite → CallSite)
    (g : DynamicSite → DynamicSite) : (e.mapSites f g).Current supply known := by
  induction h with
  | value sound bodies => exact .value sound bodies
  | var same => exact .var same
  | closure fits _ _ captures body =>
    refine .closure (fits.mapSites f g) ?_ ?_
    · rw [Closure.mapSites_eq]
      exact List.forall_mem_map.2 captures
    · rw [Closure.mapSites_eq]
      exact body
  | literal fits _ _ captures body =>
    refine .literal (fits.mapSites f g) ?_ ?_
    · rw [Closure.mapSites_eq]
      exact List.forall_mem_map.2 captures
    · rw [Closure.mapSites_eq]
      exact body
  | @inner _ e shares binder _ parts =>
    refine .inner ?_ ?_ ?_
    · cases e <;> exact shares
    · cases e <;> exact binder
    · rw [parts_mapSites]
      exact List.forall_mem_map.2 parts

theorem Current.markTails : {e : Expr} → e.Current supply known → e.markTails.Current supply known
  | .branch _ _ _ _, h => by
    rw [current_branch] at h
    exact current_branch.2 ⟨h.1, h.2.1.markTails, h.2.2.markTails⟩
  | .letIn _ _ _ _, h => by
    rw [current_letIn] at h
    exact current_letIn.2 ⟨h.1, h.2.1, h.2.2.markTails⟩
  | .call _ _, h => current_call.2 (current_call.1 h)
  | .dynamicCall _ _ _, h => current_dynamicCall.2 (current_dynamicCall.1 h)
  | .value _, h | .var _, h | .arith _ _ _ _, h | .compare _ _ _ _, h | .seq _, h | .focus _, h
  | .treat _ _ _, h | .builtin _ _ _, h | .error _, h | .closure _, h | .literal _ _, h
  | .partialApply _ _ _, h => h

theorem Current.keepTail {e : Expr} (h : e.Current supply known) (tail : Bool) :
    (Compile.keepTail tail e).Current supply known := by
  unfold Compile.keepTail
  split
  · exact h.markTails
  · exact h

theorem Current.coerce {e : Expr} (h : e.Current supply known) (declared : Option SeqType)
    (span : Span) : (e.coerce declared span).Current supply known := by
  unfold Expr.coerce
  split
  · split
    · exact h
    · exact current_treat.2 h
  · exact h

end Expr

theorem Closure.current_toItem {c : Closure} (fits : c.Fits supply)
    (body : c.body.Current supply c.scope.Lists) (start : Supply) :
    (Value.func ((c.toItem []).run start).1).Current supply := by
  refine Value.current_func ?_ ?_
  · rintro _ _ _ _ ⟨⟩
    exact ⟨fits.sound, body⟩
  · rintro _ _ _ _ ⟨⟩
    exact nofun

namespace PartialApplication

theorem current_arrange (holes : List Nat) {params : List Expr}
    (all : ∀ e ∈ params, e.Current supply known) (pos count : Nat) (supplied : List Value)
    (values : ∀ v ∈ supplied, v.Current supply) :
    ∀ e ∈ arrange holes params pos count supplied, e.Current supply known := by
  induction count generalizing pos supplied with
  | zero => exact nofun
  | succ count ih =>
    unfold arrange
    split
    · rename_i param found
      obtain ⟨i, -, hi⟩ := Option.bind_eq_some_iff.1 found
      exact List.forall_mem_cons.2 ⟨all _ (List.mem_of_getElem? hi), ih _ _ values⟩
    · refine List.forall_mem_cons.2 ⟨Expr.current_value.2 ?_,
        ih _ _ fun v mem => values v (List.mem_of_mem_tail mem)⟩
      cases supplied with
      | nil => exact Value.current_empty
      | cons v vs => exact values v (by simp)

theorem current_make {item : FuncItem} {supplied : List Value} (hitem : (Value.func item).Current supply)
    (values : ∀ v ∈ supplied, v.Current supply) (holes : List Nat) (span : Span) :
    Gives (fun _ => True) supply (make item supplied holes span) fun f t => (Value.func f).Current t := by
  obtain ⟨serves, -, grows⟩ := openVariables_serves item 0 holes (.empty supply)
  refine Gives.bind (Gives.liftSupply grows) fun scope t hst same => ?_
  rw [← same] at serves
  refine Gives.bind (Gives.liftSupply (Nat.le_refl t.nextVar)) fun origin u htu _ => ?_
  refine Gives.bind (Gives.liftSupply (Nat.le_refl u.nextVar)) fun itemId v huv _ => ?_
  refine Gives.bind (Gives.ofExcept fun _ _ => trivial) fun type w _ last => Gives.pure ?_
  obtain ⟨-, rfl⟩ := last
  have sound := serves.sound.mono (Nat.le_trans htu huv)
  have le := Nat.le_trans hst (Nat.le_trans htu huv)
  -- The arguments that are left open are variables of the new scope.
  have params : ∀ e ∈ scope.vars.map fun v => Expr.var ⟨v.id, v.slot, v.type, span⟩,
      e.Current w scope.Lists :=
    List.forall_mem_map.2 fun x mem => Expr.current_var.2 (Scope.lists_of_find? (sound.find?_of_mem mem))
  have args := current_arrange holes params 0 (supplied.length + holes.length) supplied
    fun x mem => (values x mem).mono le
  refine Value.current_func ?_ ?_
  · rintro _ _ _ _ ⟨⟩
    exact ⟨sound, Expr.current_dynamicCall.2 ⟨Expr.current_value.2 (hitem.mono le), args⟩⟩
  · rintro _ _ _ _ ⟨⟩
    exact nofun

end PartialApplication

end QueryFunctions
