import QueryFunctions.Expr.Copy
import QueryFunctions.Proofs.Form.Basic
import QueryFunctions.Proofs.Law.Supplied

/-! Copied code is well formed wherever the variables that it is copied to are declared. A copy meets no
fault, as every variable of well-formed code is one that the renaming knows. -/
namespace QueryFunctions

variable {w : World} {p q : Place}

def Place.drawnTo (p : Place) (supply : Supply) : Place := { p with supply }

theorem Place.drawnTo_le (p : Place) {s t : Supply} (le : s.nextVar ≤ t.nextVar) :
    p.drawnTo s ≤ p.drawnTo t := ⟨.refl _, le, id, id, id, .inl⟩

namespace Renaming

/-- The renaming leads each variable of the scope at `p` to one that is declared at `q`. -/
structure Carries (r : Renaming) (p q : Place) : Prop where
  known : ∀ x ∈ p.scope.layout, (r.find? x.1).isSome = true
  placed : ∀ {id v}, r.find? id = some v → (v.id, v.slot) ∈ q.scope.layout
  bound : ∀ {id v}, r.find? id = some v → p.bound id → q.bound v.id
  spared : ∀ {id slot v}, r.find? id = some v → (id, slot) ∈ p.scope.layout → ¬p.spared slot →
    ¬q.spared v.slot
  focus : p.focus → q.focus

theorem Carries.opened {r : Renaming} (h : r.Carries p q) {id : VarId} {v : Variable}
    (found : r.find? id = some v) : r.Carries (p.opened id) (q.opened v.id) where
  known := h.known
  placed := h.placed
  spared := h.spared
  focus := h.focus
  bound := by
    rintro x u here (rfl | bound)
    · cases found.symm.trans here
      exact .inl rfl
    · exact .inr (h.bound here bound)

def nameOf (r : Renaming) (id : VarId) : VarId := ((r.find? id).map (·.id)).getD id

theorem nameOf_of_find? {r : Renaming} {id : VarId} {v : Variable} (found : r.find? id = some v) :
    r.nameOf id = v.id := by rw [nameOf, found]; rfl

variable {faults : Fault → Prop} {s : Supply}

theorem gives_name {r : Renaming} {id : VarId} (known : (r.find? id).isSome = true) :
    Gives faults s (do return (← r.require id).id : Supplied VarId) fun x _ => x = r.nameOf id := by
  obtain ⟨v, found⟩ := Option.isSome_iff_exists.1 known
  rw [require_eq_ok_iff.2 found]
  exact Gives.ok_bind (Gives.pure (nameOf_of_find? found).symm)

theorem gives_names {r : Renaming} (ids : List VarId)
    (known : ∀ id ∈ ids, (r.find? id).isSome = true) (s : Supply) :
    Gives faults s (ids.mapM fun id => do return (← r.require id).id) fun xs _ =>
      xs = ids.map r.nameOf := by
  induction ids generalizing s with
  | nil =>
    rw [List.mapM_nil]
    exact Gives.pure rfl
  | cons id ids ih =>
    rw [List.mapM_cons]
    refine Gives.bind (gives_name (known id (by simp))) fun x t _ hx => ?_
    refine Gives.bind (ih (fun y mem => known y (by simp [mem])) t) fun xs u _ hxs => Gives.pure ?_
    rw [List.map_cons, hx, hxs]

end Renaming

namespace Scope

variable {s t : Scope} {table : Renaming} {params captured : List VarId} {supply supply' : Supply}

theorem Copied.find? (copied : s.Copied t table) {id : VarId} (known : id ∈ s.layout.map Prod.fst) :
    ∃ v, table.find? id = some v := by
  obtain ⟨x, mem, rfl⟩ := List.mem_map.1 known
  exact Option.isSome_iff_exists.1 (copied.known x mem)

theorem Copied.mem_names (copied : s.Copied t table) {ids : List VarId}
    (known : ∀ id ∈ ids, id ∈ s.layout.map Prod.fst) {x : VarId} (mem : x ∈ ids.map table.nameOf) :
    ∃ id ∈ ids, ∃ v, table.find? id = some v ∧ x = v.id := by
  obtain ⟨id, among, rfl⟩ := List.mem_map.1 mem
  obtain ⟨v, found⟩ := copied.find? (known id among)
  exact ⟨id, among, v, found, Renaming.nameOf_of_find? found⟩

theorem Copied.slot_eq (copied : s.Copied t table) (sound : s.Sound supply)
    (sound' : t.Sound supply') {id : VarId} {v : Variable} {a b : Nat}
    (found : table.find? id = some v) (ha : (id, a) ∈ s.layout) (hb : (v.id, b) ∈ t.layout) :
    a = b :=
  (sound.slot_eq ha (copied.placed id v found).1).trans
    (sound'.slot_eq (copied.placed id v found).2 hb)

theorem Serves.copied (serves : s.Serves supply params captured) (sound : t.Sound supply')
    (copied : s.Copied t table) :
    t.Serves supply' (params.map table.nameOf) (captured.map table.nameOf) := by
  have params_known : ∀ id ∈ params, id ∈ s.layout.map Prod.fst :=
    fun id mem => serves.known id (.inl mem)
  have captured_known : ∀ id ∈ captured, id ∈ s.layout.map Prod.fst :=
    fun id mem => serves.known id (.inr mem)
  refine ⟨sound, fun x mem => ?_, fun x mem slot here => ?_⟩
  · obtain ⟨id, v, found, rfl⟩ : ∃ id v, table.find? id = some v ∧ x = v.id := by
      rcases mem with mem | mem
      · obtain ⟨id, -, found⟩ := copied.mem_names params_known mem
        exact ⟨id, found⟩
      · obtain ⟨id, -, found⟩ := copied.mem_names captured_known mem
        exact ⟨id, found⟩
    exact List.mem_map_of_mem (copied.placed id v found).2
  · obtain ⟨id, among, v, found, rfl⟩ := copied.mem_names params_known mem
    have same := copied.slot_eq serves.sound sound found (copied.placed id v found).1 here
    have taken := serves.taken id among slot (same ▸ (copied.placed id v found).1)
    unfold Taken at taken ⊢
    rwa [copied.slots]

theorem Copied.carries (copied : s.Copied t table) (serves : s.Serves supply params captured)
    (sound : t.Sound supply') (outer outer' : VarId → Prop) :
    table.Carries { Place.ofBody s params captured supply with outer }
      { Place.ofBody t (params.map table.nameOf) (captured.map table.nameOf) supply' with
        outer := outer' } where
  known := copied.known
  placed found := (copied.placed _ _ found).2
  focus := id
  bound found bound := by
    rw [← Renaming.nameOf_of_find? found]
    exact bound.imp List.mem_map_of_mem List.mem_map_of_mem
  spared := by
    rintro id slot v found here free ⟨x, mem, spared⟩
    obtain ⟨y, among, u, renamed, rfl⟩ :=
      copied.mem_names (fun id mem => serves.known id (.inl mem)) mem
    refine free ⟨y, among, ?_⟩
    have own := serves.sound.slot_eq here (copied.placed id v found).1
    have same := copied.slot_eq serves.sound sound renamed (copied.placed y u renamed).1 spared
    rw [own, ← same]
    exact (copied.placed y u renamed).1

end Scope

mutual
theorem Expr.Formed.copy : {p q : Place} → {r : Renaming} → r.Carries p q → {e : Expr} →
    e.Formed w p → (s : Supply) → q.Drawn s →
    Gives w.faults s (e.copy r) fun e' t => e'.Formed w (q.drawnTo t)
  | _, _, _, _, _, .value hv, _, _ => Gives.pure (.value hv)
  | _, _, _, h, _, .focus hp, _, _ => Gives.pure (.focus (h.focus hp))
  | _, _, _, _, _, .error he, _, _ => Gives.pure (.error he)
  | _, _, r, h, _, .var bound mem, _, _ => by
    obtain ⟨v, found⟩ := Option.isSome_iff_exists.1 (h.known _ mem)
    rw [Expr.copy, found]
    exact Gives.pure (.var (h.bound found bound) (h.placed found))
  | _, q, r, h, _, .letIn mem spared hbound hbody, s, drawn => by
    obtain ⟨v, found⟩ := Option.isSome_iff_exists.1 (h.known _ mem)
    rw [Expr.copy, found]
    refine Gives.bind (hbound.copy h s drawn) fun bound' t hst hbound' => ?_
    refine Gives.bind (hbody.copy (h.opened found) t (drawn.mono hst)) fun body' u le hbody' => Gives.pure ?_
    exact .letIn (h.placed found) (h.spared found mem spared) (hbound'.mono (q.drawnTo_le le)) hbody'
  | _, q, _, h, _, .branch hcond hyes hno, s, drawn => by
    rw [Expr.copy]
    refine Gives.bind (hcond.copy h s drawn) fun cond' t hst hcond' => ?_
    refine Gives.bind (hyes.copy h t (drawn.mono hst)) fun yes' u htu hyes' => ?_
    refine Gives.bind (hno.copy h u (drawn.mono (Nat.le_trans hst htu))) fun no' v huv hno' =>
      Gives.pure ?_
    exact .branch (hcond'.mono (q.drawnTo_le (Nat.le_trans htu huv)))
      (hyes'.mono (q.drawnTo_le huv)) hno'
  | _, q, _, h, _, .arith hl hr, s, drawn => by
    rw [Expr.copy]
    refine Gives.bind (hl.copy h s drawn) fun l' t hst hl' => ?_
    refine Gives.bind (hr.copy h t (drawn.mono hst)) fun r' u htu hr' => Gives.pure ?_
    exact .arith (hl'.mono (q.drawnTo_le htu)) hr'
  | _, q, _, h, _, .compare hl hr, s, drawn => by
    rw [Expr.copy]
    refine Gives.bind (hl.copy h s drawn) fun l' t hst hl' => ?_
    refine Gives.bind (hr.copy h t (drawn.mono hst)) fun r' u htu hr' => Gives.pure ?_
    exact .compare (hl'.mono (q.drawnTo_le htu)) hr'
  | _, _, _, h, .seq items, .seq all, s, drawn => by
    rw [Expr.copy]
    refine Gives.bind (copyList_forms h items all s drawn) fun items' t _ hitems' => Gives.pure ?_
    exact .seq hitems'.2
  | _, _, _, h, _, .treat he, s, drawn => by
    rw [Expr.copy]
    exact Gives.bind (he.copy h s drawn) fun e' t _ he' => Gives.pure (.treat he')
  | _, _, _, h, .builtin _ args _, .builtin all, s, drawn => by
    rw [Expr.copy]
    refine Gives.bind (copyList_forms h args all s drawn) fun args' t _ hargs' => Gives.pure ?_
    exact .builtin hargs'.2
  | _, _, _, h, _, .closure hc, s, drawn => by
    rw [Expr.copy]
    exact Gives.bind (hc.copy h s drawn) fun c' t _ hc' => Gives.pure (.closure hc'.1)
  | _, _, _, h, _, .literal called bare hc, s, drawn => by
    rw [Expr.copy]
    refine Gives.bind (hc.copy h s drawn) fun c' t _ hc' => Gives.pure ?_
    exact .literal (hc'.2.1 ▸ called) (hc'.2.2 bare) hc'.1
  | _, q, _, h, .partialApply site target args, .partialApply holes htarget hargs, s, drawn => by
    rw [Expr.copy]
    refine Gives.bind (htarget.copy h s drawn) fun target' t hst htarget' => ?_
    refine Gives.bind (copyList_forms h args hargs t (drawn.mono hst)) fun args' u htu hargs' => Gives.pure ?_
    exact .partialApply (hargs'.1 ▸ holes) (htarget'.mono (q.drawnTo_le htu)) hargs'.2
  | _, _, _, h, .call site args, .call called hargs, s, drawn => by
    rw [Expr.copy]
    refine Gives.bind (copyList_forms h args hargs s drawn) fun args' t _ hargs' => Gives.pure ?_
    exact .call (hargs'.1 ▸ called) hargs'.2
  | _, q, _, h, .dynamicCall site callee args, .dynamicCall hcallee hargs, s, drawn => by
    rw [Expr.copy]
    refine Gives.bind (hcallee.copy h s drawn) fun callee' t hst hcallee' => ?_
    refine Gives.bind (copyList_forms h args hargs t (drawn.mono hst)) fun args' u htu hargs' => Gives.pure ?_
    exact .dynamicCall (hcallee'.mono (q.drawnTo_le htu)) hargs'.2

theorem copyList_forms {p q : Place} {r : Renaming} (h : r.Carries p q) : (es : List Expr) →
    (∀ e ∈ es, e.Formed w p) → (s : Supply) → q.Drawn s →
    Gives w.faults s (copyList r es) fun es' t =>
      es'.length = es.length ∧ ∀ e ∈ es', e.Formed w (q.drawnTo t)
  | [], _, s, _ => Gives.pure ⟨rfl, by simp⟩
  | e :: es, all, s, drawn => by
    rw [copyList]
    refine Gives.bind ((all e (by simp)).copy h s drawn) fun e' t hst he' => ?_
    refine Gives.bind (copyList_forms h es (fun x mem => all x (by simp [mem])) t (drawn.mono hst))
      fun es' u htu hes' => Gives.pure ⟨by simp [hes'.1], ?_⟩
    exact List.forall_mem_cons.2 ⟨he'.mono (q.drawnTo_le htu), hes'.2⟩

/-- The scope of the copy has variables that nothing around it has, as they are all drawn for it. -/
theorem Closure.Formed.copy : {p q : Place} → {outer : Renaming} → outer.Carries p q →
    {c : Closure} → c.Formed w p → (s : Supply) → q.Drawn s →
    Gives w.faults s (c.copy outer) fun c' t => c'.Formed w (q.drawnTo t) ∧
      c'.params.length = c.params.length ∧ (c.captures = [] → c'.captures = [])
  | p, q, outer, h, ⟨name, params, body, declared, annotations, scope, captures, origin, done, span⟩,
      .intro serves _ hcaptures hbody, s, drawn => by
    obtain ⟨sound, grows, copied⟩ := serves.sound.copy s
    have fresh := scope.fresh_copy s
    rw [Closure.copy]
    refine Gives.bind (Gives.liftSupply grows) fun made t hst same => ?_
    rw [← same] at sound copied fresh
    obtain ⟨scope', table⟩ := made
    have params_known : ∀ id ∈ params, (table.find? id).isSome = true := fun id mem =>
      Option.isSome_iff_exists.2 (copied.find? (serves.known id (.inl mem)))
    have captures_known : ∀ x ∈ captures, (table.find? x.1).isSome = true := fun x mem =>
      Option.isSome_iff_exists.2 (copied.find? (serves.known x.1 (.inr (List.mem_map_of_mem mem))))
    refine Gives.bind (Renaming.gives_names params params_known _) fun params' u htu names => ?_
    subst names
    have apart : q.Apart scope' := fun id mem claimed =>
      Nat.lt_irrefl _ (Nat.lt_of_lt_of_le (drawn id claimed) (fresh id mem))
    have inside : Place.Drawn { Place.ofBody scope' (params.map table.nameOf)
        ((captures.map Prod.fst).map table.nameOf) t with outer := q.claims } u := by
      rintro id (around | own)
      · exact drawn.mono (Nat.le_trans hst htu) id around
      · obtain ⟨x, mem, rfl⟩ := List.mem_map.1 own
        exact Nat.lt_of_lt_of_le (sound.fresh x mem) htu
    refine Gives.bind (hbody.copy (copied.carries serves sound _ q.claims) u inside)
      fun body' v huv hbody' => ?_
    refine Gives.bind (copySupplies_forms h table captures captures_known hcaptures v
      (drawn.mono (Nat.le_trans hst (Nat.le_trans htu huv))))
      fun captures' x hvx hcaptures' => Gives.pure ⟨?_, by simp, fun bare => ?_⟩
    · refine .intro ?_ (fun _ => apart) hcaptures'.2 ?_
      · rw [hcaptures'.1]
        exact (serves.copied sound copied).mono (Nat.le_trans htu (Nat.le_trans huv hvx))
      · unfold Closure.placeIn
        rw [hcaptures'.1]
        exact hbody'.mono (Place.drawnTo_le _ hvx)
    · have keys := congrArg List.length hcaptures'.1
      rw [show captures = [] from bare] at keys
      simpa using keys

theorem copySupplies_forms {p q : Place} {outer : Renaming} (h : outer.Carries p q)
    (inner : Renaming) : (es : List (VarId × Expr)) →
    (∀ x ∈ es, (inner.find? x.1).isSome = true) → (∀ x ∈ es, x.2.Formed w p) → (s : Supply) → q.Drawn s →
    Gives w.faults s (copySupplies outer inner es) fun es' t =>
      es'.map Prod.fst = (es.map Prod.fst).map inner.nameOf ∧ ∀ x ∈ es', x.2.Formed w (q.drawnTo t)
  | [], _, _, s, _ => Gives.pure ⟨rfl, by simp⟩
  | (id, e) :: es, known, all, s, drawn => by
    rw [copySupplies]
    obtain ⟨v, found⟩ := Option.isSome_iff_exists.1 (known (id, e) (by simp))
    rw [Renaming.require_eq_ok_iff.2 found]
    refine Gives.ok_bind ?_
    refine Gives.bind ((all (id, e) (by simp)).copy h s drawn) fun e' u hsu he' => ?_
    refine Gives.bind (copySupplies_forms h inner es (fun x mem => known x (by simp [mem]))
      (fun x mem => all x (by simp [mem])) u (drawn.mono hsu)) fun es' x hux hes' => Gives.pure ⟨?_, ?_⟩
    · simp [hes'.1, Renaming.nameOf_of_find? found]
    · exact List.forall_mem_cons.2 ⟨he'.mono (q.drawnTo_le hux), hes'.2⟩
end

end QueryFunctions
