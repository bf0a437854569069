import QueryFunctions.Proofs.Build.State
import QueryFunctions.Proofs.Form.Items

/-! The registry while a query is built. Calls and literals mention their target, which gets an entry
if it has none; a declaration fills its entry and leaves all others alone. -/
namespace QueryFunctions

namespace Registry

variable {r : Registry} {exact : Prop} {supply : Supply} {id : FuncId} {e : Entry}

/-- Entries are filled and added, and keep their mentions. -/
structure Leads (exact : Prop) (supply : Supply) (r r' : Registry) : Prop where
  recalls : r.Recalls r'
  drafts : r.Draft exact supply → r'.Draft exact supply

theorem Leads.trans {r r' r'' : Registry} (first : Leads exact supply r r')
    (second : Leads exact supply r' r'') : Leads exact supply r r'' :=
  ⟨first.recalls.trans second.recalls, fun h => second.drafts (first.drafts h)⟩

theorem Leads.refl (r : Registry) : Leads exact supply r r := ⟨.refl r, id⟩

theorem find?_entry (r : Registry) (name : String) (arity : Nat) :
    (∀ id e, r.find? id = some e → (r.entry name arity).2.find? id = some e) ∧
      ∀ id e, (r.entry name arity).2.find? id = some e → r.find? id = some e ∨ e = { name, arity } := by
  unfold entry
  cases known : r.lookup? name arity with
  | some id => exact ⟨fun _ _ h => h, fun _ _ h => .inl h⟩
  | none =>
    dsimp only
    simp only [find?_add]
    refine ⟨fun id e found => ?_, fun id e found => ?_⟩
    · have before := (List.getElem?_eq_some_iff.1 found).1
      rw [if_neg (Nat.ne_of_lt before), found]
    · split at found
      · exact .inr (Option.some.inj found).symm
      · exact .inl found

theorem InStep.find?_entry (h : r.InStep) (name : String) (arity : Nat) :
    ∃ e, (r.entry name arity).2.find? (r.entry name arity).1 = some e ∧ e.name = name ∧
      e.arity = arity :=
  ((h.entry name arity).lookup?_iff name arity _).1 (r.lookup?_entry name arity)

theorem entry_leads (r : Registry) (exact : Prop) (supply : Supply) (name : String) (arity : Nat) :
    Leads exact supply r (r.entry name arity).2 := by
  obtain ⟨kept, origin⟩ := r.find?_entry name arity
  have recalls : r.Recalls (r.entry name arity).2 :=
    fun id e found => ⟨e, kept id e found, rfl, rfl, fun called => called⟩
  refine ⟨recalls, fun drafts => ⟨fun id e found => ?_, drafts.inStep.entry name arity⟩⟩
  rcases origin id e found with old | rfl
  · exact (drafts.entries id e old).mono recalls (Nat.le_refl _)
  · exact ⟨rfl, rfl, .empty supply, by rintro _ ⟨⟩, by rintro ⟨⟩⟩

theorem update_leads {f : Entry → Entry}
    (same : ∀ e, (f e).name = e.name ∧ (f e).arity = e.arity ∧ (e.calls ≠ [] → (f e).calls ≠ []))
    (drafts : ∀ e, r.find? id = some e → e.Draft r exact supply → (f e).Draft r exact supply) :
    Leads exact supply r (r.update id f) := by
  have kept : r.Recalls (r.update id f) := by
    intro id' e found
    rw [find?_update]
    split
    · exact ⟨f e, by simp [found], same e⟩
    · exact ⟨e, found, rfl, rfl, fun called => called⟩
  refine ⟨kept, fun all => ⟨fun id' e found => ?_, all.inStep.update id fun e => ⟨(same e).1, (same e).2.1⟩⟩⟩
  rw [find?_update] at found
  split at found
  · rename_i same
    subst same
    obtain ⟨old, here, rfl⟩ := Option.map_eq_some_iff.1 found
    exact (drafts old here (all.entries id' old here)).mono kept (Nat.le_refl _)
  · exact (all.entries id' e found).mono kept (Nat.le_refl _)

theorem reference_leads (r : Registry) (exact : Prop) (supply : Supply) (name : String) (arity : Nat)
    (span : Span) : Leads exact supply r (r.reference name arity span).2 := by
  refine (r.entry_leads exact supply name arity).trans (update_leads (fun e => ?_) fun e _ h => ?_)
  · exact ⟨rfl, rfl, by simp⟩
  · exact ⟨h.pending, h.unmarked, h.scope, h.body, h.defined⟩

theorem InStep.calls_reference (h : r.InStep) (name : String) (arity : Nat) (span : Span) :
    (r.reference name arity span).2.Calls (r.reference name arity span).1 arity := by
  obtain ⟨e, found, -, same⟩ := h.find?_entry name arity
  refine ⟨{ e with calls := e.calls ++ [span] }, ?_, same, by simp⟩
  change ((r.entry name arity).2.update (r.entry name arity).1 _).find? (r.entry name arity).1 = _
  rw [find?_update, if_pos rfl, found]
  rfl

theorem InStep.introduces_reference (h : r.InStep) (name : String) (arity : Nat) (span : Span) {c : Closure}
    (signature : c.signature = ⟨some name, numberedLabels 0 arity, none, {}⟩)
    (distinct : c.params.Nodup) :
    (r.reference name arity span).2.Introduces ⟨name, (r.reference name arity span).1, span⟩ c := by
  obtain ⟨e, found, called, same⟩ := h.find?_entry name arity
  refine ⟨⟨{ e with calls := e.calls ++ [span] }, ?_, called, by rw [signature, called, same]⟩, distinct⟩
  change ((r.entry name arity).2.update (r.entry name arity).1 _).find? (r.entry name arity).1 = _
  rw [find?_update, if_pos rfl, found]
  rfl

theorem InStep.declare_leads (h : r.InStep) {decl : Declaration}
    (serves : decl.scope.Serves supply decl.params [])
    (body : decl.body.Draft r exact (.ofBody decl.scope decl.params [] supply)) :
    Leads exact supply r (r.declare decl).2 := by
  have entered := r.entry_leads exact supply decl.name decl.params.length
  obtain ⟨entry, here, -, arity⟩ := h.find?_entry decl.name decl.params.length
  unfold declare
  dsimp only
  split
  · exact entered
  · refine entered.trans (update_leads (fun e => ⟨rfl, rfl, fun called => called⟩) fun e found draft => ?_)
    cases here.symm.trans found
    refine ⟨draft.pending, draft.unmarked, serves, ?_, fun _ => ⟨arity.symm, rfl⟩⟩
    rintro _ ⟨⟩
    exact body.mono entered.recalls (Place.le_refl _)

theorem resolveCall_leads (r : Registry) (exact : Prop) (supply : Supply) (name : String)
    (args : List Expr) (span : Span) : Leads exact supply r (r.resolveCall name args span).2 := by
  unfold resolveCall
  split
  · split <;> exact .refl r
  · exact r.reference_leads exact supply name args.length span

theorem InStep.resolveCall_draft (h : r.InStep) {name : String} {args : List Expr} {span : Span}
    {p : Place} {e : Expr} (hargs : ∀ a ∈ args, a.Draft r exact p)
    (made : (r.resolveCall name args span).1 = .ok e) :
    e.Draft (r.resolveCall name args span).2 exact p := by
  unfold resolveCall at made ⊢
  split at made
  · split at made
    · cases made
      rename_i arity
      rw [if_pos arity]
      exact .builtin hargs
    · cases made
  · cases made
    have leads := r.reference_leads exact p.supply name args.length span
    exact .call (h.calls_reference name args.length span)
      (Expr.Draft.all_mono hargs leads.recalls (Place.le_refl p))

theorem numberedParams_serves (first count : Nat) {scope : Scope}
    (serves : scope.Serves supply (scope.vars.map (·.id)) []) :
    let p := (numberedParams scope first count).run supply
    p.1.Serves p.2 (p.1.vars.map (·.id)) [] ∧ supply.nextVar ≤ p.2.nextVar ∧
      p.1.vars.length = scope.vars.length + count ∧
      ∀ x ∈ p.1.layout, x ∈ scope.layout ∨ supply.nextVar ≤ x.1.index := by
  induction count generalizing first scope supply with
  | zero => exact ⟨serves, Nat.le_refl _, rfl, fun _ => .inl⟩
  | succ count ih =>
    obtain ⟨next, one⟩ := serves.declare_own s!"arg{first + 1}"
    obtain ⟨serves', grows, length, fresh⟩ := ih (first + 1) next
    refine ⟨serves', Nat.le_trans (Nat.le_succ _) grows, length.trans ?_, fun x mem => ?_⟩
    · rw [one]
      omega
    · rcases fresh x mem with old | new
      · exact scope.fresh_add supply s!"arg{first + 1}" none true x old
      · exact .inr (Nat.le_trans (Nat.le_succ _) new)

theorem numberedParams_labels (first count : Nat) (scope : Scope) (supply : Supply) :
    ((numberedParams scope first count).run supply).1.vars.map (fun v => (v.name, v.declared)) =
      scope.vars.map (fun v => (v.name, v.declared)) ++ numberedLabels first count := by
  induction count generalizing first scope supply with
  | zero => exact (List.append_nil _).symm
  | succ count ih =>
    refine (ih (first + 1) _ _).trans ?_
    rw [Scope.add, List.map_append, List.append_assoc]
    rfl

end Registry

theorem FuncItem.ofBuiltin_plain (b : Builtin) (supply : Supply) :
    (Value.func ((FuncItem.ofBuiltin b).run supply).1).Plain := by
  refine ⟨fun d => Value.meets_func.2 ?_, fun w => .func (FuncItem.formed_ofBuiltin b supply),
    fun f has => ?_⟩
  · rw [FuncItem.meets_iff]
    change Code.Meets d b.flags.upd b.flags.upd (.builtin b)
    rw [Code.Meets]
    exact fun upd => ⟨upd, upd⟩
  · cases has with
    | item => exact ⟨b, rfl⟩
    | captured code => cases code

namespace Registry

theorem resolveLiteral_draft (r : Registry) (exact : Prop) (supply : Supply) (name : String)
    (arity : Nat) (span : Span) :
    let p := (r.resolveLiteral name arity span).run supply
    supply.nextVar ≤ p.2.nextVar ∧ (∀ supply, Leads exact supply r p.1.2) ∧
      (r.InStep → ∀ e, p.1.1 = .ok e → ∀ place, place.supply = p.2 → place.Drawn supply →
        e.Draft p.1.2 exact place) := by
  unfold resolveLiteral
  split
  · split
    · refine ⟨Nat.le_refl _, fun _ => .refl r, ?_⟩
      rintro - _ ⟨⟩ place - -
      exact .value (FuncItem.ofBuiltin_plain _ supply)
    · refine ⟨Nat.le_refl _, fun _ => .refl r, ?_⟩
      rintro - _ ⟨⟩
  · obtain ⟨serves, grows, length, fresh⟩ := numberedParams_serves 0 arity (.empty supply)
    refine ⟨grows, fun supply => r.reference_leads exact supply name arity span, ?_⟩
    rintro h _ ⟨⟩ place here drawn
    let inner : CallSite := ⟨name, (r.reference name arity span).1, false, .item, {}, span⟩
    have same : inner.target = (r.reference name arity span).1 := rfl
    let vars := ((numberedParams {} 0 arity).run supply).1.vars
    have count : vars.length = arity := by simpa using length
    let refs : List VarRef := vars.map fun v => ⟨v.id, v.slot, v.type, span⟩
    have args : vars.map (fun v => Expr.var ⟨v.id, v.slot, v.type, span⟩) = refs.map .var :=
      List.map_map.symm
    have called : (r.reference name arity span).2.Calls (r.reference name arity span).1
        (vars.map (·.id)).length := by
      rw [List.length_map, count]
      exact h.calls_reference name arity span
    have lengths : refs.length = (vars.map (·.id)).length := by rw [List.length_map, List.length_map]
    refine .literal called (h.introduces_reference name arity span ?_ ?_) rfl rfl ?_ ?_ same
      (congrArg (Expr.call inner) args) lengths (List.forall_mem_map.2 fun v mem => ?_)
    · have labels := (serves.sound.labels_all).trans (numberedParams_labels 0 arity {} supply)
      exact congrArg (fun params => (⟨some name, params, none, {}⟩ : Signature)) labels
    · have distinct := serves.sound.distinct
      rwa [Scope.layout, List.map_map] at distinct
    · rw [here]
      exact serves.mono (Nat.le_refl _)
    · have none : place.Apart {} := fun id mem => by cases mem
      exact none.grown fresh drawn
    · exact ⟨List.mem_map_of_mem mem, Scope.mem_layout_of_mem mem⟩

end Registry

namespace Build

variable {α : Type} {exact : Prop} {s : BuildState}

theorem modifyRegistry_keeps (hs : s.Formed exact) {f : Registry → α × Registry}
    (leads : Registry.Leads exact s.supply s.registry (f s.registry).2) :
    Keeps exact s (modifyRegistry f) fun a t =>
      a = (f s.registry).1 ∧ t = { s with registry := (f s.registry).2 } :=
  Keeps.of_eq rfl ⟨hs.frames, leads.drafts hs.functions⟩
    ⟨Nat.le_refl _, leads.recalls, .refl _, .inl⟩ ⟨rfl, rfl⟩

theorem call_makes (hs : s.Formed exact) (name : String) {args : List Expr}
    (hargs : ∀ e ∈ args, s.Holds exact e) : Makes exact s (call name args) := by
  refine Keeps.bind (Keeps.get hs) fun _ t _ _ same => ?_
  obtain ⟨rfl, rfl⟩ := same
  have leads := t.registry.resolveCall_leads exact t.supply name args t.span
  refine Keeps.bind (modifyRegistry_keeps hs leads) fun result u hu _ same => ?_
  obtain ⟨rfl, rfl⟩ := same
  refine (Keeps.ofExcept hu).mono fun e v _ _ ended => ?_
  obtain ⟨made, rfl⟩ := ended
  exact hs.functions.inStep.resolveCall_draft hargs made

theorem literal_makes (hs : s.Formed exact) (name : String) (arity : Nat) :
    Makes exact s (literal name arity) := by
  refine Keeps.bind (Keeps.get hs) fun _ t _ _ same => ?_
  obtain ⟨rfl, rfl⟩ := same
  obtain ⟨grows, leads, draft⟩ := t.registry.resolveLiteral_draft exact t.supply name arity t.span
  refine Keeps.bind (Keeps.draw hs grows) fun p u hu _ same => ?_
  obtain ⟨rfl, rfl⟩ := same
  refine Keeps.bind (Keeps.modify ⟨hu.frames, (leads _).drafts hu.functions⟩
    ⟨Nat.le_refl _, (leads t.supply).recalls, .refl _, .inl⟩) fun _ v hv _ same => ?_
  subst same
  refine (Keeps.ofExcept hv).mono fun e w _ _ ended => ?_
  obtain ⟨made, rfl⟩ := ended
  exact draft hs.functions.inStep e made _ rfl fun _ own => hs.frames.drawn (Frame.claims_place.1 own)

end Build

end QueryFunctions
