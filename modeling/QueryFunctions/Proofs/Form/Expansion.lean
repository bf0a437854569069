import QueryFunctions.Compile.Substitution
import QueryFunctions.Proofs.Compile.Substitution
import QueryFunctions.Proofs.Form.Copying
import QueryFunctions.Proofs.Form.Rewriting
import QueryFunctions.Proofs.Form.State

/-! Substitution makes code that no longer needs the variable: what stood below its let may stand outside.
A function body in place of a call is well formed where the call stood: its variables are declared in the
caller's scope, in slots that nobody may count on, and each of its parameters and captured variables is
bound by one of the lets around it. -/
namespace QueryFunctions

open Contract

variable {w : World} {busy : FuncId → Prop} {p : Place} {o : Options} {s : CompileState}

/-- The simplifier makes well-formed code from well-formed code, wherever that stands. -/
def SimplifierForms (w : World) (o : Options) (simplify : Expr → Compile Expr) : Prop :=
  ∀ (busy : FuncId → Prop) (p : Place) (e : Expr) (s : CompileState), s.Formed w busy p.reserve →
    e.Formed w (p.within s) → Compile.Forms w busy p o s (simplify e)

theorem Expr.Formed.moveLiteral {q : Place} {site : LiteralSite} {c : Closure}
    (he : (Expr.literal site c).Formed w p) (le : p.supply.nextVar ≤ q.supply.nextVar)
    (claims : ∀ {id}, q.claims id → p.claims id ∨ p.supply.nextVar ≤ id.index) :
    (Expr.literal site c).Formed w q := by
  cases he with
  | literal called bare hc =>
    exact .literal called bare (hc.onto le claims fun x mem => by rw [bare] at mem; cases mem)

theorem Place.opened_comm (p : Place) (x y : VarId) : (p.opened x).opened y ≤ (p.opened y).opened x :=
  ⟨.refl _, Nat.le_refl _, fun {_} => or_left_comm.1, id, id, .inl⟩

section

variable {simplify : Expr → Compile Expr} (simplifies : SimplifierForms w o simplify)
  {sub : Substitution}

theorem whereUsed_forms {e : Expr} {rewritten : Compile Expr} (hs : s.Formed w busy p.reserve)
    (he : e.Formed w ((p.within s).opened sub.id))
    (made : Compile.Forms w busy p o s rewritten) :
    Compile.Forms w busy p o s (whereUsed sub e rewritten) := by
  unfold whereUsed
  split
  · exact made
  · rename_i unused
    exact Keeps.pure hs (he.closed (Bool.eq_false_iff.2 unused))

mutual
theorem Expr.substitute_forms (simplifies : SimplifierForms w o simplify) :
    (e : Expr) → (p : Place) → (s : CompileState) →
    s.Formed w busy p.reserve → sub.new.Formed w (p.within s) →
    e.Formed w ((p.within s).opened sub.id) →
    Compile.Forms w busy p o s (e.substitute simplify sub)
  | .value _, _, _, hs, _, .value hv => Keeps.pure hs (.value hv)
  | .focus _, _, _, hs, _, .focus hp => Keeps.pure hs (.focus hp)
  | .error _, _, _, hs, _, .error he => Keeps.pure hs (.error he)
  | .literal _ _, _, _, hs, _, he => Keeps.pure hs (he.moveLiteral (Nat.le_refl _) .inl)
  | .var ref, p, s, hs, hnew, .var bound mem => by
    refine Keeps.pure hs ?_
    split
    · exact hnew
    · rename_i apart
      exact .var (bound.resolve_left (by simpa using apart)) mem
  | .letIn x slot value body, p, s, hs, hnew, he => by
    refine whereUsed_forms hs he ?_
    cases he with
    | letIn mem spared hvalue hbody =>
      refine Keeps.bind (Expr.substitute_forms simplifies value p s hs hnew hvalue)
        fun value' t ht hst hvalue' => ?_
      refine Keeps.bind (Expr.substitute_forms simplifies body (p.opened x) t ht ?_ ?_)
        fun body' u hu htu hbody' => ?_
      · exact (hst.formed hnew).mono ⟨.refl _, Nat.le_refl _, .inr, id, id, .inl⟩
      · exact (hst.formed (p := (p.opened sub.id).opened x) hbody).mono
          (Place.opened_comm (p.within t) sub.id x)
      · exact simplifies busy p _ u hu (.letIn ((hst.trans htu).scope _ mem) spared
          (htu.formed hvalue') hbody')
  | .branch cond yes no span, p, s, hs, hnew, he => by
    refine whereUsed_forms hs he ?_
    cases he with
    | branch hcond hyes hno =>
      refine Keeps.bind (Expr.substitute_forms simplifies cond p s hs hnew hcond)
        fun cond' t ht hst hcond' => ?_
      refine Keeps.bind (Expr.substitute_forms simplifies yes p t ht (hst.formed hnew)
        (hst.formed (p := p.opened sub.id) hyes)) fun yes' u hu htu hyes' => ?_
      have hsu := hst.trans htu
      refine Keeps.bind (Expr.substitute_forms simplifies no p u hu (hsu.formed hnew)
        (hsu.formed (p := p.opened sub.id) hno)) fun no' v hv huv hno' => ?_
      exact simplifies busy p _ v hv
        (.branch ((htu.trans huv).formed hcond') (huv.formed hyes') hno')
  | .arith op lhs rhs span, p, s, hs, hnew, he => by
    refine whereUsed_forms hs he ?_
    cases he with
    | arith hl hr =>
      refine Keeps.bind (Expr.substitute_forms simplifies lhs p s hs hnew hl) fun lhs' t ht hst hlhs' => ?_
      refine Keeps.bind (Expr.substitute_forms simplifies rhs p t ht (hst.formed hnew)
        (hst.formed (p := p.opened sub.id) hr)) fun rhs' u hu htu hrhs' => ?_
      exact simplifies busy p _ u hu (.arith (htu.formed hlhs') hrhs')
  | .compare op lhs rhs span, p, s, hs, hnew, he => by
    refine whereUsed_forms hs he ?_
    cases he with
    | compare hl hr =>
      refine Keeps.bind (Expr.substitute_forms simplifies lhs p s hs hnew hl) fun lhs' t ht hst hlhs' => ?_
      refine Keeps.bind (Expr.substitute_forms simplifies rhs p t ht (hst.formed hnew)
        (hst.formed (p := p.opened sub.id) hr)) fun rhs' u hu htu hrhs' => ?_
      exact simplifies busy p _ u hu (.compare (htu.formed hlhs') hrhs')
  | .seq items, p, s, hs, hnew, he => by
    refine whereUsed_forms hs he ?_
    cases he with
    | seq all =>
      refine Keeps.bind (substituteList_forms simplifies items p s hs hnew all)
        fun items' t ht _ hitems' => ?_
      exact simplifies busy p _ t ht (.seq hitems'.2)
  | .treat expr type span, p, s, hs, hnew, he => by
    refine whereUsed_forms hs he ?_
    cases he with
    | treat inner =>
      refine Keeps.bind (Expr.substitute_forms simplifies expr p s hs hnew inner)
        fun expr' t ht _ hexpr' => ?_
      exact simplifies busy p _ t ht (.treat hexpr')
  | .builtin function args span, p, s, hs, hnew, he => by
    refine whereUsed_forms hs he ?_
    cases he with
    | builtin all =>
      refine Keeps.bind (substituteList_forms simplifies args p s hs hnew all) fun args' t ht _ hargs' => ?_
      exact simplifies busy p _ t ht (.builtin hargs'.2)
  | .closure c, p, s, hs, hnew, he => by
    refine whereUsed_forms hs he ?_
    cases he with
    | closure hc =>
      refine Keeps.bind (Closure.substitute_forms simplifies c p s hs hnew hc) fun c' t ht _ hc' => ?_
      exact simplifies busy p _ t ht (.closure hc')
  | .partialApply site target args, p, s, hs, hnew, he => by
    refine whereUsed_forms hs he ?_
    cases he with
    | partialApply holes htarget hargs =>
      refine Keeps.bind (Expr.substitute_forms simplifies target p s hs hnew htarget)
        fun target' t ht hst htarget' => ?_
      refine Keeps.bind (substituteList_forms simplifies args p t ht (hst.formed hnew)
        (hst.all_formed (p := p.opened sub.id) hargs)) fun args' u hu htu hargs' => ?_
      exact simplifies busy p _ u hu
        (.partialApply (hargs'.1 ▸ holes) (htu.formed htarget') hargs'.2)
  | .call site args, p, s, hs, hnew, he => by
    refine whereUsed_forms hs he ?_
    cases he with
    | call called hargs =>
      refine Keeps.bind (substituteList_forms simplifies args p s hs hnew hargs) fun args' t ht _ hargs' => ?_
      exact simplifies busy p _ t ht (.call (hargs'.1 ▸ called) hargs'.2)
  | .dynamicCall site callee args, p, s, hs, hnew, he => by
    refine whereUsed_forms hs he ?_
    cases he with
    | dynamicCall hcallee hargs =>
      refine Keeps.bind (Expr.substitute_forms simplifies callee p s hs hnew hcallee)
        fun callee' t ht hst hcallee' => ?_
      refine Keeps.bind (substituteList_forms simplifies args p t ht (hst.formed hnew)
        (hst.all_formed (p := p.opened sub.id) hargs)) fun args' u hu htu hargs' => ?_
      exact simplifies busy p _ u hu (.dynamicCall (htu.formed hcallee') hargs'.2)

theorem substituteList_forms (simplifies : SimplifierForms w o simplify) :
    (es : List Expr) → (p : Place) → (s : CompileState) →
    s.Formed w busy p.reserve → sub.new.Formed w (p.within s) →
    (∀ e ∈ es, e.Formed w ((p.within s).opened sub.id)) →
    (formContract w busy p.reserve).Keeps o s (substituteList simplify sub es) fun es' t =>
      es'.length = es.length ∧ ∀ e ∈ es', e.Formed w (p.within t)
  | [], _, _, hs, _, _ => Keeps.pure hs ⟨rfl, by simp⟩
  | e :: es, p, s, hs, hnew, all => by
    refine Keeps.bind (Expr.substitute_forms simplifies e p s hs hnew (all e (by simp)))
      fun e' t ht hst he' => ?_
    refine Keeps.bind (substituteList_forms simplifies es p t ht (hst.formed hnew)
      (hst.all_formed (p := p.opened sub.id) fun x mem => all x (by simp [mem])))
      fun es' u hu htu hes' => ?_
    exact Keeps.pure hu ⟨by simp [hes'.1], List.forall_mem_cons.2 ⟨htu.formed he', hes'.2⟩⟩

theorem Closure.substitute_forms (simplifies : SimplifierForms w o simplify) :
    (c : Closure) → (p : Place) → (s : CompileState) →
    s.Formed w busy p.reserve → sub.new.Formed w (p.within s) →
    c.Formed w ((p.within s).opened sub.id) →
    (formContract w busy p.reserve).Keeps o s (c.substitute simplify sub) fun c' t =>
      c'.Formed w (p.within t)
  | ⟨_, params, _, _, _, scope, captures, _, _, _⟩, p, s, hs, hnew, .intro serves apart hcaptures hbody => by
    refine Keeps.bind (substituteSupplies_forms simplifies captures p s hs hnew hcaptures)
      fun captures' t ht hst hcaptures' => Keeps.pure ht (.intro ?_ (fun hw => ?_) hcaptures'.2 ?_)
    · rw [hcaptures'.1]
      exact serves.mono hst.supply
    · exact (apart hw).onto (hst.claims p) serves.sound
    · have moved := hbody.mono (Place.inside_le (q := p.within t) hst.supply (hst.claims p) _ _ _)
      unfold Closure.placeIn at moved ⊢
      rw [hcaptures'.1]
      exact moved

theorem substituteSupplies_forms (simplifies : SimplifierForms w o simplify) :
    (es : List (VarId × Expr)) → (p : Place) → (s : CompileState) →
    s.Formed w busy p.reserve → sub.new.Formed w (p.within s) →
    (∀ x ∈ es, x.2.Formed w ((p.within s).opened sub.id)) →
    (formContract w busy p.reserve).Keeps o s (substituteSupplies simplify sub es) fun es' t =>
      es'.map Prod.fst = es.map Prod.fst ∧ ∀ x ∈ es', x.2.Formed w (p.within t)
  | [], _, _, hs, _, _ => Keeps.pure hs ⟨rfl, by simp⟩
  | (key, e) :: es, p, s, hs, hnew, all => by
    refine Keeps.bind (Expr.substitute_forms simplifies e p s hs hnew (all (key, e) (by simp)))
      fun e' t ht hst he' => ?_
    refine Keeps.bind (substituteSupplies_forms simplifies es p t ht (hst.formed hnew) fun x mem =>
      hst.formed (p := p.opened sub.id) (all x (by simp [mem]))) fun es' u hu htu hes' => ?_
    exact Keeps.pure hu ⟨by simp [hes'.1], List.forall_mem_cons.2 ⟨htu.formed he', hes'.2⟩⟩
end

end

def Place.under (p : Place) (ids : List VarId) : Place :=
  { p with bound := fun x => x ∈ ids ∨ p.bound x }

namespace Place

variable (p : Place) (ids : List VarId)

theorem under_nil_le : p.under [] ≤ p :=
  ⟨.refl _, Nat.le_refl _, fun h => h.resolve_left List.not_mem_nil, id, id, .inl⟩

theorem le_under : p ≤ p.under ids := ⟨.refl _, Nat.le_refl _, .inr, id, id, .inl⟩

theorem under_cons_le (x : VarId) : p.under (x :: ids) ≤ (p.under ids).opened x :=
  ⟨.refl _, Nat.le_refl _, fun h => by simpa [under, opened, or_assoc] using h, id, id, .inl⟩

end Place

namespace Compile

theorem keepTail_forms {e : Expr} {q : Place} (he : e.Formed w q) (tail : Bool) :
    (keepTail tail e).Formed w q := by
  unfold keepTail
  split
  · exact he.markTails
  · exact he

theorem adopting_forms {reserve : Reserve} (hs : s.Formed w busy reserve) (callee : Scope) :
    (adopting s callee).Formed w busy reserve ∧ CompileState.Grows s (adopting s callee) := by
  obtain ⟨adopted, adoption⟩ := callee.adoptInto_adoption s.scope s.supply
  refine ⟨{ hs with
    functions := fun id e found => (hs.functions id e found).mono adoption.grows
    scope := hs.scope.adoptInto callee
    spared := fun slot spared => (adoption.taken slot).2 (.inl (hs.spared slot spared))
    outer := fun id outer => Nat.lt_of_lt_of_le (hs.outer id outer) adoption.grows },
    fun x mem => ?_, adoption.grows, .refl, fun x mem => ?_⟩
  · change x ∈ ((callee.adoptInto s.scope).run s.supply).1.1.layout
    rw [adoption.layout]
    exact List.mem_append_left _ mem
  · change x ∈ ((callee.adoptInto s.scope).run s.supply).1.1.layout at mem
    rw [adoption.layout] at mem
    exact (List.mem_append.1 mem).imp_right (adoption.drawn x)

/-- What adopted variables are good for: they are declared, in slots that nobody may count on. -/
theorem adopting_places {reserve : Reserve} (hs : s.Formed w busy reserve) (callee : Scope) :
    let table := ((callee.adoptInto s.scope).run s.supply).1.2
    (∀ x ∈ callee.layout, (table.find? x.1).isSome = true) ∧
      ∀ id v, table.find? id = some v →
        (v.id, v.slot) ∈ (adopting s callee).scope.layout ∧ ¬reserve.spared v.slot := by
  obtain ⟨adopted, adoption⟩ := callee.adoptInto_adoption s.scope s.supply
  refine ⟨fun x mem => ?_, fun id v found => ?_⟩
  · obtain ⟨v, known, rfl⟩ := List.mem_map.1 mem
    exact adoption.known v known
  · have mem := (adoption.slots hs.scope.fresh).2 id v found
    refine ⟨?_, fun spared => ?_⟩
    · change (v.id, v.slot) ∈ ((callee.adoptInto s.scope).run s.supply).1.1.layout
      rw [adoption.layout]
      exact List.mem_append_right _ mem
    · exact adoption.apart v.slot (List.mem_map_of_mem mem) (hs.spared v.slot spared)

section

variable {simplify : Expr → Compile Expr} (simplifies : SimplifierForms w o simplify)

include simplifies

theorem bindValue_forms (hs : s.Formed w busy p.reserve) {v : Variable} {value body : Expr}
    (span : Span) (placed : (v.id, v.slot) ∈ s.scope.layout) (spared : ¬p.spared v.slot)
    (hvalue : value.Formed w (p.within s)) (hbody : body.Formed w ((p.within s).opened v.id)) :
    Forms w busy p o s (bindValue simplify v value body span) := by
  have bound : ∀ (value : Expr) (t : CompileState), t.Formed w busy p.reserve →
      CompileState.Grows s t → value.Formed w (p.within t) →
      Forms w busy p o t (simplify (.letIn v.id v.slot value body)) := fun value t ht hst hvalue =>
    simplifies busy p _ t ht (.letIn (hst.scope _ placed) spared hvalue
      (hst.formed (p := p.opened v.id) hbody))
  unfold bindValue
  dsimp only
  split
  · split
    · exact bound value s hs (.refl s) hvalue
    · refine Keeps.bind (simplifies busy p _ s hs (.treat hvalue)) fun value' t ht hst hvalue' => ?_
      exact bound value' t ht hst hvalue'
  · exact bound value s hs (.refl s) hvalue

theorem bindAll_forms {table : Renaming} (span : Span) : (bindings : List (VarId × Expr)) →
    (body : Expr) → (s : CompileState) → s.Formed w busy p.reserve →
    (∀ x ∈ bindings, x.2.Formed w (p.within s) ∧ ∃ v, table.find? x.1 = some v ∧
      (v.id, v.slot) ∈ s.scope.layout ∧ ¬p.spared v.slot) →
    body.Formed w ((p.under (bindings.map fun x => table.nameOf x.1)).within s) →
    Forms w busy p o s (bindings.foldlM (fun body x => do
      bindValue simplify (← ofFaulty (table.require x.1)) x.2 body span) body)
  | [], body, s, hs, _, hbody => Keeps.pure hs (hbody.mono (Place.under_nil_le (p.within s)))
  | x :: bindings, body, s, hs, all, hbody => by
    obtain ⟨hvalue, v, found, placed, spared⟩ := all x List.mem_cons_self
    have required := Renaming.require_eq_ok_iff.2 found
    let rest := bindings.map fun x => table.nameOf x.1
    have made : Forms w busy (p.under rest) o s (do
        bindValue simplify (← ofFaulty (table.require x.1)) x.2 body span) := by
      refine Keeps.bind (Keeps.ofFaulty hs fun f failed => ?_) fun u t ht _ same => ?_
      · rw [required] at failed
        cases failed
      · obtain ⟨eq, rfl⟩ := same
        cases required.symm.trans eq
        refine bindValue_forms simplifies (p := p.under rest) ht span placed spared
          (hvalue.mono (Place.le_under (p.within t) rest)) ?_
        rw [List.map_cons, Renaming.nameOf_of_find? found] at hbody
        exact hbody.mono (Place.under_cons_le (p.within t) rest v.id)
    rw [List.foldlM_cons]
    refine Keeps.bind made fun body' t ht hst hbody' => ?_
    refine bindAll_forms span bindings body' t ht (fun y mem => ?_) hbody'
    obtain ⟨hy, u, found', placed', spared'⟩ := all y (List.mem_cons_of_mem _ mem)
    exact ⟨hst.formed hy, u, found', hst.scope _ placed', spared'⟩

theorem expand_forms (hs : s.Formed w busy p.reserve) {callee : Scope} {supply : Supply}
    {params captured : List VarId} (serves : callee.Serves supply params captured) {body : Expr}
    (hbody : body.Formed w { Place.ofBody callee params captured supply with focus := False })
    {bindings : List (VarId × Expr)} (keys : ∀ x ∈ bindings, x.1 ∈ params ∨ x.1 ∈ captured)
    (covers : ∀ id, id ∈ params ∨ id ∈ captured → id ∈ bindings.map Prod.fst)
    (values : ∀ x ∈ bindings, x.2.Formed w (p.within s)) (origins : List Origin) (span : Span) :
    Forms w busy p o s (expand simplify callee body bindings origins span) := by
  obtain ⟨hadopted, grows⟩ := adopting_forms hs callee
  obtain ⟨known, places⟩ := adopting_places hs callee
  have run : expand simplify callee body bindings origins span o s = (do
      let body ← draw (body.copy ((callee.adoptInto s.scope).run s.supply).1.2)
      bindings.reverse.foldlM (fun body p => do
        bindValue simplify (← ofFaulty (((callee.adoptInto s.scope).run s.supply).1.2.require p.1))
          p.2 body span) (body.addOrigins origins) : Compile Expr) o (adopting s callee) := rfl
  refine Keeps.after run grows ?_
  generalize ((callee.adoptInto s.scope).run s.supply).1.2 = table at known places
  let names := bindings.reverse.map fun x => table.nameOf x.1
  have carries : table.Carries { Place.ofBody callee params captured supply with focus := False }
      ((p.under names).within (adopting s callee)) := by
    refine ⟨known, fun found => (places _ _ found).1, fun {id v} found bound => .inl ?_,
      fun found _ _ => (places _ _ found).2, False.elim⟩
    obtain ⟨x, mem, same⟩ := List.mem_map.1 (covers id bound)
    refine List.mem_map.2 ⟨x, List.mem_reverse.2 mem, ?_⟩
    rw [same]
    exact Renaming.nameOf_of_find? found
  refine Keeps.bind (draw_forms hadopted (hbody.copy carries _ (hadopted.drawn (p.under names))))
    fun copied t ht hst drawn => ?_
  obtain ⟨hcopied, same⟩ := drawn
  refine bindAll_forms simplifies span bindings.reverse _ t ht (fun x mem => ?_) ?_
  · have among := List.mem_reverse.1 mem
    obtain ⟨y, here, eq⟩ := List.mem_map.1 (serves.known x.1 (keys x among))
    obtain ⟨v, found⟩ := Option.isSome_iff_exists.1 (eq ▸ known y here)
    refine ⟨(grows.trans hst).formed (values x among), v, found, ?_, (places _ v found).2⟩
    exact hst.scope _ (places _ v found).1
  · have place : ((p.under names).within (adopting s callee)).drawnTo t.supply =
        (p.under names).within t := by rw [same]; rfl
    exact place ▸ hcopied.addOrigins origins

end

end Compile

end QueryFunctions
