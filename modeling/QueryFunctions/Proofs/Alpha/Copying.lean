import QueryFunctions.Proofs.Alpha.Basic
import QueryFunctions.Proofs.Current.Basic
import QueryFunctions.Proofs.Form.Copying

/-! A copy is the same code up to identities of variables. Its closures have variables of their own, each
with an identity that is drawn for it. References that are copied take slot and type from the table of the
scope, which are those that they had, since the code is current. -/
namespace QueryFunctions

namespace Expr

def scope? : Expr → Option Scope
  | .closure c | .literal _ c => some c.scope
  | _ => none

/-- The variables of all closures and literals that stand in the code, those inside others included. -/
def ownVars (e : Expr) : List VarId :=
  (e.nodes.filterMap scope?).flatMap fun s => s.vars.map (·.id)

theorem ownVars_eq (e : Expr) :
    e.ownVars = (e.scope?.elim [] fun s => s.vars.map (·.id)) ++ e.parts.flatMap ownVars := by
  have inside : (e.parts.flatMap nodes).filterMap scope? =
      e.parts.flatMap fun p => p.nodes.filterMap scope? := List.filterMap_flatMap
  unfold ownVars
  rw [nodes_eq, List.filterMap_cons, inside]
  cases e.scope? <;> simp [List.flatMap_assoc]

end Expr

/-- All variables of closures in the code are different, and were drawn between the two supplies. -/
structure Drawn (s t : Supply) (es : List Expr) : Prop where
  distinct : (es.flatMap Expr.ownVars).Nodup
  between : ∀ id ∈ es.flatMap Expr.ownVars, s.nextVar ≤ id.index ∧ id.index < t.nextVar

namespace Drawn

variable {s t u v : Supply} {e : Expr} {es es' : List Expr}

theorem nil : Drawn s t [] := ⟨List.nodup_nil, nofun⟩

theorem later (h : Drawn t u es) (first : s.nextVar ≤ t.nextVar) (last : u.nextVar ≤ v.nextVar) :
    Drawn s v es :=
  ⟨h.distinct, fun id mem => ⟨Nat.le_trans first (h.between id mem).1,
    Nat.lt_of_lt_of_le (h.between id mem).2 last⟩⟩

theorem append (first : Drawn s t es) (second : Drawn t u es') (hst : s.nextVar ≤ t.nextVar)
    (htu : t.nextVar ≤ u.nextVar) : Drawn s u (es ++ es') := by
  refine ⟨?_, fun id mem => ?_⟩
  · rw [List.flatMap_append, List.nodup_append]
    refine ⟨first.distinct, second.distinct, fun a mem b mem' same => ?_⟩
    subst same
    have early := (first.between a mem).2
    have late := (second.between a mem').1
    omega
  · rw [List.flatMap_append] at mem
    rcases List.mem_append.1 mem with mem | mem
    · exact (first.later (Nat.le_refl _) htu).between id mem
    · exact (second.later hst (Nat.le_refl _)).between id mem

theorem swap (h : Drawn s t (es ++ es')) : Drawn s t (es' ++ es) := by
  have perm : ((es ++ es').flatMap Expr.ownVars).Perm ((es' ++ es).flatMap Expr.ownVars) :=
    List.perm_append_comm.flatMap_right _
  exact ⟨perm.nodup_iff.1 h.distinct, fun id mem => h.between id (perm.mem_iff.2 mem)⟩

theorem node (h : Drawn s t e.parts) (none : e.scope? = none) : Drawn s t [e] := by
  have same : [e].flatMap Expr.ownVars = e.parts.flatMap Expr.ownVars := by
    rw [List.flatMap_singleton, e.ownVars_eq, none]
    rfl
  exact ⟨same ▸ h.distinct, same ▸ h.between⟩

theorem enclose {scope : Scope} (some : e.scope? = some scope) (sound : scope.Sound t)
    (drawn : ∀ x ∈ scope.vars, s.nextVar ≤ x.id.index) (hst : s.nextVar ≤ t.nextVar)
    (h : Drawn t u e.parts) (htu : t.nextVar ≤ u.nextVar) : Drawn s u [e] := by
  have same : [e].flatMap Expr.ownVars = scope.vars.map (·.id) ++ e.parts.flatMap Expr.ownVars := by
    rw [List.flatMap_singleton, e.ownVars_eq, some]
    rfl
  have below : ∀ x ∈ scope.vars, x.id.index < t.nextVar := fun x mem =>
    sound.fresh (x.id, x.slot) (List.mem_map_of_mem mem)
  have distinct := sound.distinct
  rw [Scope.layout, List.map_map] at distinct
  refine ⟨?_, ?_⟩ <;> rw [same]
  · refine List.nodup_append.2 ⟨distinct, h.distinct, fun a mem b mem' eq => ?_⟩
    obtain ⟨x, among, rfl⟩ := List.mem_map.1 mem
    have early := below x among
    have late := (h.between b mem').1
    rw [← eq] at late
    omega
  · intro id mem
    rcases List.mem_append.1 mem with mem | mem
    · obtain ⟨x, among, rfl⟩ := List.mem_map.1 mem
      exact ⟨drawn x among, Nat.lt_of_lt_of_le (below x among) htu⟩
    · exact (h.later hst (Nat.le_refl _)).between id mem

end Drawn

/-- The renaming changes nothing of what is known but identities, and those along `F`. -/
structure Renaming.Along (r : Renaming) (F : Pairing) (known : Listing) : Prop where
  mapped : ∀ {id slot type v}, known id slot type → r.find? id = some v →
    F id v.id ∧ v.slot = slot ∧ v.type = type
  kept : ∀ {id slot type}, known id slot type → r.find? id = none → F id id

theorem Renaming.empty_along (known : Listing) : Renaming.empty.Along Eq known :=
  ⟨nofun, fun _ _ => rfl⟩

def Pairing.zip (vs ws : List Variable) : Pairing := fun a b => ∃ p ∈ vs.zip ws, p.1.id = a ∧ p.2.id = b

theorem Pairing.zip_oneToOne {vs ws : List Variable} (size : ws.length = vs.length)
    (old : (vs.map (·.id)).Nodup) (new : (ws.map (·.id)).Nodup) : OneToOne (Pairing.zip vs ws) := by
  have firsts : ((vs.zip ws).map (·.1.id)).Nodup := by
    rw [← List.map_fst_zip (Nat.le_of_eq size.symm), List.map_map] at old
    exact old
  have seconds : ((vs.zip ws).map (·.2.id)).Nodup := by
    rw [← List.map_snd_zip (Nat.le_of_eq size), List.map_map] at new
    exact new
  rintro _ _ _ _ ⟨p, hp, rfl, rfl⟩ ⟨q, hq, rfl, rfl⟩
  refine ⟨fun same => ?_, fun same => ?_⟩
  · rw [List.inj_on_of_nodup_map firsts hp hq same]
  · rw [List.inj_on_of_nodup_map seconds hp hq same]

namespace Scope.Sound

variable {s : Scope} {supply start : Supply}

theorem renames_copy (h : s.Sound supply) (start : Supply) :
    let t := (s.copy.run start).1.1
    OneToOne (Pairing.zip s.vars t.vars) ∧ s.Renames (Pairing.zip s.vars t.vars) t ∧
      ∀ x ∈ t.vars, start.nextVar ≤ x.id.index := by
  intro t
  have vars : t.vars = s.vars.mapIdx fun i v => { v with id := ⟨start.nextVar + i⟩ } :=
    (copied_vars s.vars start).1
  have size : t.vars.length = s.vars.length := by rw [vars, List.length_mapIdx]
  have ids : ∀ {scope : Scope} {supply : Supply}, scope.Sound supply →
      (scope.vars.map (·.id)).Nodup := by
    intro scope supply sound
    have distinct := sound.distinct
    rwa [Scope.layout, List.map_map] at distinct
  refine ⟨Pairing.zip_oneToOne size (ids h) (ids (h.copy start).1),
    ⟨List.forall₂_iff_zip.2 ⟨size.symm, fun {v w} mem => ⟨⟨(v, w), mem, rfl, rfl⟩, ?_⟩⟩,
      (h.copy start).2.2.slots⟩, fun x mem => ?_⟩
  · rw [vars] at mem
    obtain ⟨i, lt, eq⟩ := List.getElem_of_mem mem
    rw [List.getElem_zip, List.getElem_mapIdx] at eq
    obtain ⟨rfl, rfl⟩ := Prod.mk.inj eq
    rfl
  · rw [vars] at mem
    obtain ⟨i, lt, rfl⟩ := List.mem_mapIdx.1 mem
    exact Nat.le_add_right _ _

theorem along_copy (h : s.Sound supply) (start : Supply) :
    (s.copy.run start).1.2.Along (Pairing.zip s.vars (s.copy.run start).1.1.vars) s.Lists where
  mapped := by
    rintro id _ _ v ⟨w, here, rfl, rfl⟩ found
    have size := (h.renames_copy start).2.1.vars.length_eq
    obtain ⟨w', pair, rfl⟩ | none := (copy_table s.vars .empty _ id size).1 v found
    · obtain ⟨old, -⟩ := List.of_mem_zip pair
      cases (h.find?_of_mem old).symm.trans here
      have renamed := (List.forall₂_iff_zip.1 (h.renames_copy start).2.1.vars).2 pair
      exact ⟨⟨_, pair, rfl, rfl⟩, renamed.slot_eq, renamed.type_eq⟩
    · cases none
  kept lists none := by
    obtain ⟨v, found⟩ := (h.copy start).2.2.find? (Scope.isSome_find?_iff.1 (Scope.isSome_of_lists lists))
    cases none.symm.trans found

theorem zip_nameOf (h : s.Sound supply) (start : Supply) {id : VarId} (known : (s.find? id).isSome = true) :
    Pairing.zip s.vars (s.copy.run start).1.1.vars id ((s.copy.run start).1.2.nameOf id) := by
  obtain ⟨w, here⟩ := Option.isSome_iff_exists.1 known
  obtain ⟨v, found⟩ := (h.copy start).2.2.find? (Scope.isSome_find?_iff.1 known)
  rw [Renaming.nameOf_of_find? found]
  exact ((h.along_copy start).mapped (Scope.lists_of_find? here) found).1

end Scope.Sound

section

variable {faults : Fault → Prop} {supply : Supply}

mutual
theorem Expr.copy_renames : (e : Expr) → {r : Renaming} → {F : Pairing} → {known : Listing} →
    (s : Supply) → r.Along F known → e.Current supply known →
    Gives faults s (e.copy r) fun e' t => e.Renames F e' ∧ Drawn s t [e']
  | .value v, _, _, _, _, _, _ => Gives.pure ⟨.value (.refl v), .node .nil rfl⟩
  | .focus span, _, _, _, _, _, _ => Gives.pure ⟨.focus span, .node .nil rfl⟩
  | .error e, _, _, _, _, _, _ => Gives.pure ⟨.error e, .node .nil rfl⟩
  | .var ⟨id, slot, type, span⟩, r, _, _, _, along, he => by
    have known := Expr.current_var.1 he
    rw [Expr.copy]
    cases found : r.find? id with
    | none => exact Gives.pure ⟨.var slot type span (along.kept known found), .node .nil rfl⟩
    | some v =>
      obtain ⟨paired, rfl, rfl⟩ := along.mapped known found
      exact Gives.pure ⟨.var v.slot v.type span paired, .node .nil rfl⟩
  | .letIn id slot bound body, r, F, _, s, along, he => by
    obtain ⟨⟨type, known⟩, hbound, hbody⟩ := Expr.current_letIn.1 he
    obtain ⟨id', paired, same⟩ : ∃ id', F id id' ∧
        ((r.find? id).map fun v => (v.id, v.slot)).getD (id, slot) = (id', slot) := by
      cases found : r.find? id with
      | none => exact ⟨id, along.kept known found, rfl⟩
      | some v =>
        obtain ⟨paired, rfl, -⟩ := along.mapped known found
        exact ⟨v.id, paired, rfl⟩
    rw [Expr.copy, same]
    refine (bound.copy_renames s along hbound).bind fun bound' t hst hbound' => ?_
    refine (body.copy_renames t along hbody).bind fun body' u htu hbody' => Gives.pure ?_
    exact ⟨.letIn slot paired hbound'.1 hbody'.1, .node (hbound'.2.append hbody'.2 hst htu) rfl⟩
  | .branch cond yes no span, _, _, _, s, along, he => by
    obtain ⟨hcond, hyes, hno⟩ := Expr.current_branch.1 he
    rw [Expr.copy]
    refine (cond.copy_renames s along hcond).bind fun cond' t hst hcond' => ?_
    refine (yes.copy_renames t along hyes).bind fun yes' u htu hyes' => ?_
    refine (no.copy_renames u along hno).bind fun no' v huv hno' => Gives.pure ?_
    exact ⟨.branch span hcond'.1 hyes'.1 hno'.1,
      .node (hcond'.2.append (hyes'.2.append hno'.2 htu huv) hst (Nat.le_trans htu huv)) rfl⟩
  | .arith op lhs rhs span, _, _, _, s, along, he => by
    obtain ⟨hl, hr⟩ := Expr.current_arith.1 he
    rw [Expr.copy]
    refine (lhs.copy_renames s along hl).bind fun lhs' t hst hl' => ?_
    refine (rhs.copy_renames t along hr).bind fun rhs' u htu hr' => Gives.pure ?_
    exact ⟨.arith op span hl'.1 hr'.1, .node (hl'.2.append hr'.2 hst htu) rfl⟩
  | .compare op lhs rhs span, _, _, _, s, along, he => by
    obtain ⟨hl, hr⟩ := Expr.current_compare.1 he
    rw [Expr.copy]
    refine (lhs.copy_renames s along hl).bind fun lhs' t hst hl' => ?_
    refine (rhs.copy_renames t along hr).bind fun rhs' u htu hr' => Gives.pure ?_
    exact ⟨.compare op span hl'.1 hr'.1, .node (hl'.2.append hr'.2 hst htu) rfl⟩
  | .seq items, _, _, _, s, along, he => by
    rw [Expr.copy]
    exact (copyList_renames items s along (Expr.current_seq.1 he)).bind fun _ _ _ hitems =>
      Gives.pure ⟨.seq hitems.1, .node hitems.2 rfl⟩
  | .treat e type span, _, _, _, s, along, he => by
    rw [Expr.copy]
    exact (e.copy_renames s along (Expr.current_treat.1 he)).bind fun _ _ _ he' =>
      Gives.pure ⟨.treat type span he'.1, .node he'.2 rfl⟩
  | .builtin function args span, _, _, _, s, along, he => by
    rw [Expr.copy]
    exact (copyList_renames args s along (Expr.current_builtin.1 he)).bind fun _ _ _ hargs =>
      Gives.pure ⟨.builtin function span hargs.1, .node hargs.2 rfl⟩
  | .closure c, _, _, _, s, along, he => by
    rw [Expr.copy]
    exact (c.copy_renames s along he).bind fun _ _ _ hc => Gives.pure ⟨.closure hc.1, hc.2 _ rfl rfl⟩
  | .literal site c, _, _, _, s, along, he => by
    rw [Expr.copy]
    exact (c.copy_renames s along (Expr.current_literal.1 he)).bind fun _ _ _ hc =>
      Gives.pure ⟨.literal site hc.1, hc.2 _ rfl rfl⟩
  | .partialApply site target args, _, _, _, s, along, he => by
    obtain ⟨htarget, hargs⟩ := Expr.current_partialApply.1 he
    rw [Expr.copy]
    refine (target.copy_renames s along htarget).bind fun target' t hst htarget' => ?_
    refine (copyList_renames args t along hargs).bind fun args' u htu hargs' => Gives.pure ?_
    exact ⟨.partialApply site htarget'.1 hargs'.1, .node (htarget'.2.append hargs'.2 hst htu) rfl⟩
  | .call site args, _, _, _, s, along, he => by
    rw [Expr.copy]
    exact (copyList_renames args s along (Expr.current_call.1 he)).bind fun _ _ _ hargs =>
      Gives.pure ⟨.call site hargs.1, .node hargs.2 rfl⟩
  | .dynamicCall site callee args, _, _, _, s, along, he => by
    obtain ⟨hcallee, hargs⟩ := Expr.current_dynamicCall.1 he
    rw [Expr.copy]
    refine (callee.copy_renames s along hcallee).bind fun callee' t hst hcallee' => ?_
    refine (copyList_renames args t along hargs).bind fun args' u htu hargs' => Gives.pure ?_
    exact ⟨.dynamicCall site hcallee'.1 hargs'.1, .node (hcallee'.2.append hargs'.2 hst htu) rfl⟩

theorem copyList_renames : (es : List Expr) → {r : Renaming} → {F : Pairing} → {known : Listing} →
    (s : Supply) → r.Along F known → (∀ e ∈ es, e.Current supply known) →
    Gives faults s (copyList r es) fun es' t => ListRename F es es' ∧ Drawn s t es'
  | [], _, _, _, _, _, _ => Gives.pure ⟨.nil, .nil⟩
  | e :: es, _, _, _, s, along, all => by
    rw [copyList]
    refine (e.copy_renames s along (all e (by simp))).bind fun e' t hst he => ?_
    refine (copyList_renames es t along fun x mem => all x (by simp [mem])).bind
      fun es' u htu hes => Gives.pure ?_
    exact ⟨.cons he.1 hes.1, he.2.append hes.2 hst htu⟩

theorem Closure.copy_renames : (c : Closure) → {r : Renaming} → {F : Pairing} → {known : Listing} →
    (s : Supply) → r.Along F known → (Expr.closure c).Current supply known →
    Gives faults s (c.copy r) fun c' t => c.Renames F c' ∧ ∀ e : Expr, e.scope? = some c'.scope →
      e.parts = c'.captures.map Prod.snd ++ [c'.body] → Drawn s t [e]
  | ⟨name, params, body, declared, annotations, scope, captures, origin, compiled, span⟩, r, _, _, s,
      along, he => by
    obtain ⟨fits, hcaptures, hbody⟩ := Expr.current_closure.1 he
    obtain ⟨sound, grows, copied⟩ := fits.sound.copy s
    obtain ⟨distinct, renamed, drawn⟩ := fits.sound.renames_copy s
    have inner := fits.sound.along_copy s
    have named := @Scope.Sound.zip_nameOf _ _ fits.sound s
    rw [Closure.copy]
    refine Gives.bind (Gives.liftSupply grows) fun made t hst same => ?_
    rw [← same] at sound copied inner distinct renamed drawn named
    obtain ⟨scope', table⟩ := made
    have mapped : ∀ id : VarId, (scope.find? id).isSome = true → (table.find? id).isSome = true :=
      fun id present => Option.isSome_iff_exists.2 (copied.find? (Scope.isSome_find?_iff.1 present))
    refine Gives.bind (Renaming.gives_names params (fun p mem => mapped p (fits.params p mem)) t)
      fun params' u htu names => ?_
    subst names
    refine (body.copy_renames u inner hbody).bind fun body' v huv hbody' => ?_
    refine (copySupplies_renames captures v along (fun q mem => mapped q.1 (fits.keys q mem))
      (fun q mem => named (fits.keys q mem)) hcaptures).bind fun captures' w hvw hcaptures' =>
        Gives.pure ⟨?_, fun e own parts => ?_⟩
    · refine .closure name declared annotations origin compiled span distinct renamed ?_ hbody'.1
        hcaptures'.1
      exact List.forall₂_map_right_iff.2 (List.forall₂_same.2 fun p mem => named (fits.params p mem))
    · have inside : Drawn u w e.parts := parts ▸ (hbody'.2.append hcaptures'.2 huv hvw).swap
      exact (inside.later htu (Nat.le_refl _)).enclose own sound drawn hst
        (Nat.le_trans htu (Nat.le_trans huv hvw))

theorem copySupplies_renames {G : Pairing} {inner : Renaming} : (es : List (VarId × Expr)) →
    {r : Renaming} → {F : Pairing} → {known : Listing} → (s : Supply) → r.Along F known →
    (∀ q ∈ es, (inner.find? q.1).isSome = true) → (∀ q ∈ es, G q.1 (inner.nameOf q.1)) →
    (∀ q ∈ es, q.2.Current supply known) →
    Gives faults s (copySupplies r inner es) fun es' t =>
      SuppliesRename F G es es' ∧ Drawn s t (es'.map Prod.snd)
  | [], _, _, _, _, _, _, _, _ => Gives.pure ⟨.nil, .nil⟩
  | (key, e) :: es, _, _, _, s, along, keys, paired, all => by
    rw [copySupplies]
    obtain ⟨v, found⟩ := Option.isSome_iff_exists.1 (keys (key, e) (by simp))
    have named := paired (key, e) (by simp)
    rw [Renaming.nameOf_of_find? found] at named
    rw [Renaming.require_eq_ok_iff.2 found]
    refine Gives.ok_bind ?_
    refine (e.copy_renames s along (all (key, e) (by simp))).bind fun e' u htu he => ?_
    refine (copySupplies_renames es u along (fun q mem => keys q (by simp [mem]))
      (fun q mem => paired q (by simp [mem])) fun q mem => all q (by simp [mem])).bind
        fun es' w huw hes => Gives.pure ?_
    exact ⟨.cons named he.1 hes.1, he.2.append hes.2 htu huw⟩
end

end

end QueryFunctions
