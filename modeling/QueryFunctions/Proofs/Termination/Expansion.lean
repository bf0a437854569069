import QueryFunctions.Proofs.Compile.Substitution
import QueryFunctions.Proofs.Termination.Rewriting
import QueryFunctions.Proofs.Termination.Substitution

/-! Expansion settles: the copied body is code of a new layer, which comes from one more closure than the
call did, and the lets around it are bound to what was there before. -/
namespace QueryFunctions

open Contract

/-- The nodes of `body'` are nodes of `body` that are told where they come from, or variables. -/
def Expr.Spliced (origins : List Origin) (body body' : Expr) : Prop :=
  ∀ k ∈ body'.kinds, (∃ k₀ ∈ body.kinds, k = k₀.addOrigins origins) ∨ ∃ id, k = .var id

noncomputable def bindingsWeight (origins : Finset Origin) (bindings : List (VarId × Expr)) : Weight :=
  (bindings.map fun x => {bottomRank} + x.2.weight origins).sum

theorem subset_foldl_origins (origins known : List Origin) :
    known ⊆ origins.foldl (fun known o => if known.contains o then known else known ++ [o]) known ∧
      origins ⊆ origins.foldl (fun known o => if known.contains o then known else known ++ [o]) known := by
  induction origins generalizing known with
  | nil => exact ⟨List.Subset.refl _, List.nil_subset _⟩
  | cons o origins ih =>
    have step : known ⊆ (if known.contains o then known else known ++ [o]) ∧
        o ∈ (if known.contains o then known else known ++ [o]) := by
      split
      · rename_i here
        exact ⟨List.Subset.refl _, List.contains_iff_mem.1 here⟩
      · exact ⟨List.subset_append_left _ _, by simp⟩
    obtain ⟨kept, added⟩ := ih (if known.contains o then known else known ++ [o])
    exact ⟨List.Subset.trans step.1 kept, List.cons_subset.2 ⟨kept step.2, added⟩⟩

variable {d : Terms} {r : Registry} {o : Options} {outer inner : List Origin} {limit : Weight}
  {fresh n : Nat} {s : CompileState}

theorem Kind.Tame.addOrigins {k : Kind} (h : k.Tame d [] n) {origins : List Origin}
    (within : inner ⊆ origins) : (k.addOrigins origins).Tame d inner n := by
  cases k with
  | dynamicCall inlinedFrom item? =>
    exact ⟨List.Subset.trans within (subset_foldl_origins origins inlinedFrom).2, nofun⟩
  | value => exact ⟨trivial, h.value⟩
  | _ => exact ⟨h.fits, nofun⟩

namespace Compile

theorem draw_settles {α : Type} {act : Supplied α} {post : α → Supply → Prop} (hs : s.registry = r)
    (given : Gives (· ≠ .budget) s.supply act post) : (simplifyContract r).Keeps o s (draw act)
      fun a t => post a t.supply ∧ t = { s with supply := t.supply } :=
  Keeps.draw given fun _ grows => ⟨hs, grows, rfl⟩

section

variable {ι : Type} {simplify : ι → Nat → Expr → Compile Expr}
  (simplifies : SimplifierSettles d r o inner limit simplify)

include simplifies

theorem bindValue_settles (within : outer ⊆ inner) (hs : s.registry = r)
    (le : fresh ≤ s.supply.nextVar) {v : Variable} (since : fresh ≤ v.id.index) {value body : Expr}
    (hvalue : value.Tame d outer fresh) (hbody : body.Layered d outer inner fresh s.supply.nextVar)
    (span : Span) (light : ({bottomRank} + value.weight d.origins +
      body.weight d.origins).IsDershowitzMannaLT limit) :
    (simplifyContract r).Settles o s (fun i n => bindValue (simplify i n) v value body span) fun e t =>
      e.Layered d outer inner fresh t.supply.nextVar ∧ (e.weight d.origins).Lighter
        ({bottomRank} + value.weight d.origins + body.weight d.origins) := by
  have bound : ∀ (value' : Expr) (t : CompileState), t.registry = r →
      s.supply.nextVar ≤ t.supply.nextVar → value'.Tame d outer fresh →
      (value'.weight d.origins).Lighter (value.weight d.origins) →
      (simplifyContract r).Settles o t (fun i n => simplify i n (.letIn v.id v.slot value' body))
        fun e t => e.Layered d outer inner fresh t.supply.nextVar ∧ (e.weight d.origins).Lighter
          ({bottomRank} + value.weight d.origins + body.weight d.origins) := by
    intro value' t ht hst hvalue' lighter
    have whole : ((Expr.letIn v.id v.slot value' body).weight d.origins).Lighter
        ({bottomRank} + value.weight d.origins + body.weight d.origins) := by
      have eq : (Expr.letIn v.id v.slot value' body).weight d.origins =
          {bottomRank} + value'.weight d.origins + body.weight d.origins := by
        rw [Expr.weight_eq]
        simp [Expr.parts, Expr.kind, Kind.charge, ← add_assoc]
      rw [eq]
      exact ((Weight.Lighter.refl _).add lighter).add (.refl _)
    exact (simplifies.layered outer fresh _ t within (Nat.le_trans le hst) ht
      (.letIn since hvalue' (hbody.later hst)) (whole.trans_lt light)).mono
        fun _ _ _ _ h => ⟨h.1, h.2.trans whole⟩
  have plain := bound value s hs (Nat.le_refl _) hvalue (.refl _)
  unfold bindValue
  cases v.declared with
  | none => exact plain
  | some type =>
    dsimp only
    cases value.inferredType.instanceOf type with
    | true => exact plain
    | false =>
      refine Settles.bind (simplifies.treat value type span s hs) fun value' t ht led same => ?_
      obtain ⟨hst, -⟩ := led
      have treated : (Expr.treat value type span).Tame d outer fresh :=
        Expr.tame_iff.2 ⟨⟨trivial, by rintro _ ⟨⟩⟩, List.forall_mem_singleton.2 hvalue⟩
      have lightens := Expr.lightens_foldTreat treated
      have weight : (Expr.treat value type span).weight d.origins = value.weight d.origins := by
        rw [Expr.weight_eq]
        simp [Expr.parts, Expr.kind, Kind.charge]
      subst same
      exact bound _ t ht hst lightens.tame (weight ▸ lightens.lighter)

theorem bindAll_settles (within : outer ⊆ inner) {table : Renaming}
    (since : ∀ id v, table.find? id = some v → fresh ≤ v.id.index) (span : Span) :
    (bindings : List (VarId × Expr)) → (body : Expr) → (s : CompileState) → s.registry = r →
    fresh ≤ s.supply.nextVar → (∀ x ∈ bindings, x.2.Tame d outer fresh) →
    body.Layered d outer inner fresh s.supply.nextVar →
    (bindingsWeight d.origins bindings + body.weight d.origins).IsDershowitzMannaLT limit →
    (simplifyContract r).Settles o s (fun i n => bindings.foldlM (fun body x => do
      bindValue (simplify i n) (← ofFaulty (table.require x.1)) x.2 body span) body) fun e t =>
        e.Layered d outer inner fresh t.supply.nextVar ∧ (e.weight d.origins).Lighter
          (bindingsWeight d.origins bindings + body.weight d.origins)
  | [], body, s, hs, _, _, hbody, _ => Settles.pure hs ⟨hbody, .of_le (Multiset.le_add_left _ _)⟩
  | x :: bindings, body, s, hs, le, all, hbody, light => by
    have split : bindingsWeight d.origins (x :: bindings) + body.weight d.origins =
        bindingsWeight d.origins bindings +
          ({bottomRank} + x.2.weight d.origins + body.weight d.origins) := by
      rw [bindingsWeight, List.map_cons, List.sum_cons, ← bindingsWeight,
        add_comm (_ + _) (bindingsWeight _ _), add_assoc]
    rw [split] at light ⊢
    have found : (simplifyContract r).Keeps o s (ofFaulty (table.require x.1)) fun v t =>
        fresh ≤ v.id.index ∧ t = s := by
      unfold Renaming.require
      cases known : table.find? x.1 with
      | none => exact Keeps.of_fault rfl (by simp [simplifyContract])
      | some v => exact Keeps.pure hs ⟨since _ v known, rfl⟩
    have first : (simplifyContract r).Settles o s (fun i n => do
        bindValue (simplify i n) (← ofFaulty (table.require x.1)) x.2 body span) fun e t =>
          e.Layered d outer inner fresh t.supply.nextVar ∧ (e.weight d.origins).Lighter
            ({bottomRank} + x.2.weight d.origins + body.weight d.origins) := by
      refine Settles.keeps_bind found fun v t ht _ here => ?_
      obtain ⟨after, rfl⟩ := here
      exact bindValue_settles simplifies within ht le after (all x (by simp)) hbody span
        ((Weight.Lighter.of_le (Multiset.le_add_left _ _)).trans_lt light)
    refine Settles.congr (Settles.bind first fun body' t ht led hbody' => ?_) fun i n => by
      rw [List.foldlM_cons]
    obtain ⟨hst, -⟩ := led
    have lighter := (Weight.Lighter.refl (bindingsWeight d.origins bindings)).add hbody'.2
    exact (bindAll_settles within since span bindings body' t ht (Nat.le_trans le hst)
      (fun y mem => all y (by simp [mem])) hbody'.1 (lighter.trans_lt light)).mono
        fun e u _ _ h => ⟨h.1, h.2.trans lighter⟩

end

theorem expand_settles {ι : Type} {simplify : ι → Nat → Expr → Compile Expr} (hs : s.registry = r)
    (callee : Scope) {body : Expr} (hbody : body.Tame d [] s.supply.nextVar)
    {bindings : List (VarId × Expr)} (values : ∀ x ∈ bindings, x.2.Tame d outer s.supply.nextVar)
    {origins : List Origin} (within : outer ⊆ inner) (told : inner ⊆ origins) (span : Span)
    (simplifies : ∀ body', body.Spliced origins body' → ∃ limit,
      SimplifierSettles d r o inner limit simplify ∧ (bindingsWeight d.origins bindings +
        body'.weight d.origins).IsDershowitzMannaLT limit) :
    (simplifyContract r).Settles o s
      (fun i n => expand (simplify i n) callee body bindings origins span) fun e t =>
        e.Tame d outer t.supply.nextVar ∧ ∃ body', body.Spliced origins body' ∧
          (e.weight d.origins).Lighter (bindingsWeight d.origins bindings + body'.weight d.origins) := by
  obtain ⟨_, adoption⟩ := callee.adoptInto_adoption s.scope s.supply
  have drawn : ∀ id v, ((callee.adoptInto s.scope).run s.supply).1.2.find? id = some v →
      s.supply.nextVar ≤ v.id.index ∧ v.id.index < (adopting s callee).supply.nextVar :=
    fun id v found => callee.drawn_adoptInto s.scope s.supply found
  have run : ∀ i n, expand (simplify i n) callee body bindings origins span o s = (do
      let body ← draw (body.copy ((callee.adoptInto s.scope).run s.supply).1.2)
      bindings.reverse.foldlM (fun body p => do
        bindValue (simplify i n) (← ofFaulty (((callee.adoptInto s.scope).run s.supply).1.2.require p.1))
          p.2 body span) (body.addOrigins origins) : Compile Expr) o (adopting s callee) :=
    fun _ _ => rfl
  refine Settles.after ?_ run ⟨adoption.grows, rfl⟩
  have grows : s.supply.nextVar ≤ (adopting s callee).supply.nextVar := adoption.grows
  have registry : (adopting s callee).registry = r := hs
  generalize ((callee.adoptInto s.scope).run s.supply).1.2 = table at drawn
  generalize adopting s callee = start at drawn grows registry
  have copies : (simplifyContract r).Keeps o start (draw (body.copy table)) fun copied t =>
      body.Copied t.supply.nextVar copied ∧ t = { start with supply := t.supply } :=
    draw_settles registry (body.copy_copied (fun id => by simp) start.supply fun id v found =>
      (drawn id v found).2)
  refine Settles.keeps_bind copies fun copied t ht led made => ?_
  obtain ⟨hst, -⟩ := led
  have kinds : ∀ k ∈ (copied.addOrigins origins).kinds,
      (∃ k₀ ∈ body.kinds, k = k₀.addOrigins origins) ∨
        ∃ id, k = .var id ∧ id.index < t.supply.nextVar := by
    intro k mem
    rw [Expr.kinds_addOrigins] at mem
    obtain ⟨k₀, among, rfl⟩ := List.mem_map.1 mem
    rcases made.1.kinds k₀ among with old | ⟨id, rfl, lt⟩
    · exact .inl ⟨k₀, old, rfl⟩
    · exact .inr ⟨id, rfl, lt⟩
  have spliced : body.Spliced origins (copied.addOrigins origins) := fun k mem =>
    (kinds k mem).imp_right fun ⟨id, same, _⟩ => ⟨id, same⟩
  have hcopied : (copied.addOrigins origins).Tame d inner t.supply.nextVar := by
    intro k mem
    rcases kinds k mem with ⟨k₀, old, rfl⟩ | ⟨id, rfl, lt⟩
    · exact ((hbody k₀ old).addOrigins told).mono (.refl d) (List.Subset.refl _)
        (Nat.le_trans grows hst)
    · exact ⟨lt, nofun⟩
  obtain ⟨limit, simplifies, light⟩ := simplifies _ spliced
  have reversed : bindingsWeight d.origins bindings.reverse = bindingsWeight d.origins bindings := by
    unfold bindingsWeight
    rw [List.map_reverse, List.sum_reverse]
  refine (bindAll_settles simplifies within (fun id v found => (drawn id v found).1) span
    bindings.reverse _ t ht (Nat.le_trans grows hst)
    (fun x mem => values x (List.mem_reverse.1 mem)) (.code hcopied) (reversed ▸ light)).mono
      fun e u _ led h => ?_
  obtain ⟨htu, -⟩ := led
  refine ⟨h.1.tame within (Nat.le_trans grows (Nat.le_trans hst htu)), _, spliced, ?_⟩
  rw [← reversed]
  exact h.2

end Compile

end QueryFunctions
