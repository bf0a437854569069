import QueryFunctions.Proofs.Scope.Adoption
import QueryFunctions.Proofs.Scope.Sound
import QueryFunctions.Proofs.Standard.Basic
import QueryFunctions.Proofs.Termination.Tame
import QueryFunctions.Proofs.Termination.Weight

/-! Copied code has the nodes of the original, but for variables, and those were drawn by the time the copy
is made. Local rewriting of tame code adds no weight: a node gives way to one of its parts or to a
constant. -/
namespace QueryFunctions

def Renaming.Below (r : Renaming) (n : Nat) : Prop := ∀ id v, r.find? id = some v → v.id.index < n

theorem Renaming.Below.mono {r : Renaming} {n m : Nat} (h : r.Below n) (le : n ≤ m) : r.Below m :=
  fun id v found => Nat.lt_of_lt_of_le (h id v found) le

namespace Scope

theorem below_copy (s : Scope) (supply : Supply) :
    supply.nextVar ≤ (s.copy.run supply).2.nextVar ∧
      (s.copy.run supply).1.2.Below (s.copy.run supply).2.nextVar := by
  obtain ⟨same, grown⟩ := copied_vars s.vars supply
  refine ⟨Nat.le_trans (Nat.le_add_right _ _) (Nat.le_of_eq grown.symm), fun id v found => ?_⟩
  have size : s.vars.length = ((s.vars.mapM fun v => return { v with id := ← Supply.freshVar } :
      StateM Supply (List Variable)).run supply).1.length := by rw [same, List.length_mapIdx]
  rcases (copy_table s.vars .empty _ id size).1 v found with ⟨w, pair, -⟩ | none
  · have copied := (List.of_mem_zip pair).2
    rw [same] at copied
    obtain ⟨i, lt, rfl⟩ := List.mem_mapIdx.1 copied
    change supply.nextVar + i < _
    rw [show (s.copy.run supply).2.nextVar = supply.nextVar + s.vars.length from grown]
    omega
  · cases none

theorem drawn_adoptInto (s target : Scope) (supply : Supply) {id : VarId} {v : Variable}
    (found : ((s.adoptInto target).run supply).1.2.find? id = some v) :
    supply.nextVar ≤ v.id.index ∧
      v.id.index < ((s.adoptInto target).run supply).2.nextVar := by
  refine (adoptInto_keeps (fun _ table now => supply.nextVar ≤ now.nextVar ∧
    ∀ id v, table.find? id = some v → supply.nextVar ≤ v.id.index ∧ v.id.index < now.nextVar)
    (fun t table now w drawn => ?_) s target supply
    ⟨Nat.le_refl _, fun _ _ none => by cases none⟩).2 id v found
  refine ⟨Nat.le_succ_of_le drawn.1, fun id v found => ?_⟩
  rw [Renaming.find?_insert] at found
  split at found
  · have same : ((t.adopt w).run now).1.2 = v := Option.some.inj found
    rw [← same, adopted_id]
    exact ⟨drawn.1, Nat.lt_succ_self _⟩
  · exact ⟨(drawn.2 id v found).1, Nat.lt_succ_of_lt (drawn.2 id v found).2⟩

end Scope

namespace Expr

/-- The nodes of `e'` are nodes of `e`, or variables that were drawn before `n`. -/
structure Copied (n : Nat) (e e' : Expr) : Prop where
  item : e'.item? = e.item?
  kinds : ∀ k ∈ e'.kinds, k ∈ e.kinds ∨ ∃ id, k = .var id ∧ id.index < n

namespace Copied

variable {n m : Nat} {e e' : Expr}

theorem mono (h : Copied n e e') (le : n ≤ m) : Copied m e e' :=
  ⟨h.item, fun k hk => (h.kinds k hk).imp_right fun ⟨id, same, lt⟩ => ⟨id, same, Nat.lt_of_lt_of_le lt le⟩⟩

theorem refl (n : Nat) (e : Expr) : Copied n e e := ⟨rfl, fun _ => .inl⟩

theorem original {es es' : List Expr} (h : List.Forall₂ (Copied n) es es') :
    ∀ x ∈ es', ∃ p ∈ es, Copied n p x := by
  induction h with
  | nil => simp
  | cons first _ ih =>
    refine List.forall_mem_cons.2 ⟨⟨_, List.mem_cons_self, first⟩, fun x mem => ?_⟩
    exact (ih x mem).imp fun _ h => ⟨List.mem_cons_of_mem _ h.1, h.2⟩

theorem node (item : e'.item? = e.item?) (kind : e'.kind = e.kind)
    (parts : List.Forall₂ (Copied n) e.parts e'.parts) : Copied n e e' := by
  refine ⟨item, fun k hk => ?_⟩
  rcases mem_kinds_iff.1 hk with rfl | ⟨x, mem, hk⟩
  · exact .inl (mem_kinds_iff.2 (.inl kind))
  · obtain ⟨p, among, copied⟩ := original parts x mem
    exact (copied.kinds k hk).imp_left fun old => kinds_subset_of_mem_parts among old

end Copied

end Expr

section

variable {faults : Fault → Prop} (missing : ∀ id, faults (.uncopiedVariable id))

include missing

theorem Renaming.gives_required (r : Renaming) (id : VarId) (s : Supply) :
    Gives faults s (liftM (r.require id)) fun _ t => t = s := by
  refine (Gives.ofExcept fun f failed => ?_).mono fun _ _ _ h => h.2
  unfold Renaming.require at failed
  split at failed
  · cases failed
  · cases failed
    exact missing id

theorem Renaming.gives_names_required (r : Renaming) (ids : List VarId) (s : Supply) :
    Gives faults s (ids.mapM fun id => do return (← r.require id).id : Supplied (List VarId))
      fun _ _ => True := by
  induction ids generalizing s with
  | nil =>
    rw [List.mapM_nil]
    exact Gives.pure trivial
  | cons id ids ih =>
    have named : Gives faults s (do return (← r.require id).id : Supplied VarId) fun _ _ => True :=
      (r.gives_required missing id s).bind fun v t _ _ => Gives.pure trivial
    rw [List.mapM_cons]
    exact named.bind fun x t _ _ => (ih t).bind fun xs u _ _ => Gives.pure trivial

omit missing

mutual
theorem Expr.copy_copied (missing : ∀ id, faults (.uncopiedVariable id)) :
    (e : Expr) → {r : Renaming} → (s : Supply) → r.Below s.nextVar →
    Gives faults s (e.copy r) fun e' t => e.Copied t.nextVar e'
  | .value _, _, _, _ | .focus _, _, _, _ | .error _, _, _, _ => Gives.pure (.refl _ _)
  | .var ref, r, s, below => by
    rw [Expr.copy]
    split
    · rename_i v found
      refine Gives.pure ⟨rfl, fun k hk => .inr ⟨v.id, ?_, below _ v found⟩⟩
      simpa [Expr.kinds_eq, Expr.parts, Expr.kind] using hk
    · exact Gives.pure (.refl _ _)
  | .letIn id slot bound body, r, s, below => by
    rw [Expr.copy]
    refine Gives.bind (bound.copy_copied missing s below) fun bound' t hst hbound => ?_
    refine Gives.bind (body.copy_copied missing t (below.mono hst)) fun body' u htu hbody => Gives.pure ?_
    exact .node rfl rfl (.cons (hbound.mono htu) (.cons hbody .nil))
  | .branch cond yes no span, r, s, below => by
    rw [Expr.copy]
    refine Gives.bind (cond.copy_copied missing s below) fun cond' t hst hcond => ?_
    refine Gives.bind (yes.copy_copied missing t (below.mono hst)) fun yes' u htu hyes => ?_
    refine Gives.bind (no.copy_copied missing u (below.mono (Nat.le_trans hst htu)))
      fun no' v huv hno => Gives.pure ?_
    exact .node rfl rfl
      (.cons (hcond.mono (Nat.le_trans htu huv)) (.cons (hyes.mono huv) (.cons hno .nil)))
  | .arith op lhs rhs span, r, s, below | .compare op lhs rhs span, r, s, below => by
    rw [Expr.copy]
    refine Gives.bind (lhs.copy_copied missing s below) fun lhs' t hst hlhs => ?_
    refine Gives.bind (rhs.copy_copied missing t (below.mono hst)) fun rhs' u htu hrhs => Gives.pure ?_
    exact .node rfl rfl (.cons (hlhs.mono htu) (.cons hrhs .nil))
  | .treat expr type span, r, s, below => by
    rw [Expr.copy]
    exact Gives.bind (expr.copy_copied missing s below) fun expr' t _ hexpr =>
      Gives.pure (.node rfl rfl (.cons hexpr .nil))
  | .seq es, r, s, below | .builtin _ es _, r, s, below | .call _ es, r, s, below => by
    rw [Expr.copy]
    exact Gives.bind (copyList_copied missing es s below) fun es' t _ hes => Gives.pure (.node rfl rfl hes)
  | .closure c, r, s, below | .literal _ c, r, s, below => by
    rw [Expr.copy]
    exact Gives.bind (c.copy_copied missing s below) fun c' t _ hc => Gives.pure (.node rfl hc.1 hc.2)
  | .partialApply site target args, r, s, below => by
    rw [Expr.copy]
    refine Gives.bind (target.copy_copied missing s below) fun target' t hst htarget => ?_
    refine Gives.bind (copyList_copied missing args t (below.mono hst)) fun args' u htu hargs => Gives.pure ?_
    exact .node rfl rfl (.cons (htarget.mono htu) hargs)
  | .dynamicCall site callee args, r, s, below => by
    rw [Expr.copy]
    refine Gives.bind (callee.copy_copied missing s below) fun callee' t hst hcallee => ?_
    refine Gives.bind (copyList_copied missing args t (below.mono hst)) fun args' u htu hargs => Gives.pure ?_
    exact .node rfl (congrArg (Kind.dynamicCall _) hcallee.item) (.cons (hcallee.mono htu) hargs)

theorem copyList_copied (missing : ∀ id, faults (.uncopiedVariable id)) :
    (es : List Expr) → {r : Renaming} → (s : Supply) → r.Below s.nextVar →
    Gives faults s (copyList r es) fun es' t => List.Forall₂ (Expr.Copied t.nextVar) es es'
  | [], _, _, _ => Gives.pure .nil
  | e :: es, r, s, below => by
    rw [copyList]
    refine Gives.bind (e.copy_copied missing s below) fun e' t hst he => ?_
    refine Gives.bind (copyList_copied missing es t (below.mono hst)) fun es' u htu hes => Gives.pure ?_
    exact .cons (he.mono htu) hes

theorem Closure.copy_copied (missing : ∀ id, faults (.uncopiedVariable id)) :
    (c : Closure) → {r : Renaming} → (s : Supply) → r.Below s.nextVar →
    Gives faults s (c.copy r) fun c' t => (Expr.closure c').kind = (Expr.closure c).kind ∧
      List.Forall₂ (Expr.Copied t.nextVar) (Expr.closure c).parts (Expr.closure c').parts
  | ⟨_, params, body, _, _, scope, captures, _, _, _⟩, r, s, below => by
    obtain ⟨grows, inner⟩ := scope.below_copy s
    rw [Closure.copy]
    refine Gives.bind (Gives.liftSupply grows) fun made t hst same => ?_
    rw [← same] at inner
    refine Gives.bind (Renaming.gives_names_required missing made.2 params t) fun params' u htu _ => ?_
    refine Gives.bind (body.copy_copied missing u (inner.mono htu)) fun body' v huv hbody => ?_
    refine Gives.bind (copySupplies_copied missing made.2 captures v
      (below.mono (Nat.le_trans hst (Nat.le_trans htu huv)))) fun captures' w hvw hcaptures =>
        Gives.pure ⟨?_, List.rel_append hcaptures (.cons (hbody.mono hvw) .nil)⟩
    have length := hcaptures.length_eq
    simp only [List.length_map] at length
    simp only [Expr.kind, length]

theorem copySupplies_copied (missing : ∀ id, faults (.uncopiedVariable id)) (inner : Renaming) :
    (es : List (VarId × Expr)) → {r : Renaming} →
    (s : Supply) → r.Below s.nextVar → Gives faults s (copySupplies r inner es) fun es' t =>
      List.Forall₂ (Expr.Copied t.nextVar) (es.map Prod.snd) (es'.map Prod.snd)
  | [], _, _, _ => Gives.pure .nil
  | (id, e) :: es, r, s, below => by
    rw [copySupplies]
    refine Gives.bind (inner.gives_required missing id s) fun v t _ same => ?_
    subst same
    refine Gives.bind (e.copy_copied missing t below) fun e' u hst he => ?_
    refine Gives.bind (copySupplies_copied missing inner es u (below.mono hst)) fun es' v huv hes =>
      Gives.pure (.cons (he.mono huv) hes)
end

end

variable {d : Terms} {around : List Origin} {n : Nat}

namespace Expr

variable {e : Expr}

theorem Tame.of_value? {v : Value} (he : e.Tame d around n) (found : e.value? = some v) :
    v.Tame d n := by
  cases e with
  | value w =>
    cases found
    exact tame_value_iff.1 he
  | _ => cases found

theorem tame_of_values? {es : List Expr} {vs : List Value} (all : ∀ e ∈ es, e.Tame d around n)
    (found : values? es = some vs) : ∀ v ∈ vs, v.Tame d n := by
  induction es generalizing vs with
  | nil =>
    cases found
    simp
  | cons e es ih =>
    simp only [values?, List.mapM_cons, Option.bind_eq_bind, Option.pure_def,
      Option.bind_eq_some_iff] at found
    obtain ⟨v, hv, vs', rest, same⟩ := found
    cases same
    have head := (all e (by simp)).of_value? hv
    exact List.forall_mem_cons.2 ⟨head, ih (fun x hx => all x (by simp [hx])) rest⟩

theorem Lightens.ofResult {result : Except QueryError Value} (open_ : e.item? = none)
    (tame : ∀ v, result = .ok v → v.Tame d n) : e.Lightens d around n (ofResult result) := by
  cases result with
  | ok v => exact .value (tame v rfl) open_
  | error err => exact .error err open_

theorem lightens_foldBranch {cond yes no : Expr} {span : Span}
    (he : (Expr.branch cond yes no span).Tame d around n) :
    (Expr.branch cond yes no span).Lightens d around n (foldBranch cond yes no span) := by
  unfold foldBranch
  split
  · split
    · exact .part he (by simp [parts]) rfl
    · exact .part he (by simp [parts]) rfl
    · exact .refl he
  · exact .refl he

theorem lightens_foldArith {op : ArithOp} {lhs rhs : Expr} {span : Span}
    (he : (Expr.arith op lhs rhs span).Tame d around n) :
    (Expr.arith op lhs rhs span).Lightens d around n (foldArith op lhs rhs span) := by
  unfold foldArith
  split
  · refine .ofResult rfl fun v computed => ?_
    rcases op.apply_cases _ _ span with h | ⟨e, h⟩ | ⟨i, h⟩ <;> rw [h] at computed <;> cases computed
    · exact Value.tame_seq (by simp)
    · exact Value.tame_int i
  · exact .refl he

theorem lightens_foldCompare {op : CompareOp} {lhs rhs : Expr} {span : Span}
    (he : (Expr.compare op lhs rhs span).Tame d around n) :
    (Expr.compare op lhs rhs span).Lightens d around n (foldCompare op lhs rhs span) := by
  unfold foldCompare
  split
  · rename_i l r _ _
    refine .ofResult rfl fun v computed => ?_
    cases h : op.apply l r span <;> rw [h] at computed <;> cases computed
    exact Value.tame_bool _
  · exact .refl he

theorem lightens_foldSeq {items : List Expr} (he : (Expr.seq items).Tame d around n) :
    (Expr.seq items).Lightens d around n (foldSeq items) := by
  unfold foldSeq
  split
  · rename_i vs found
    exact .value (Value.tame_ofItems (tame_of_values? (fun e mem => he.part mem) found)) rfl
  · exact .refl he

theorem lightens_foldTreat {type : SeqType} {span : Span} (he : (Expr.treat e type span).Tame d around n) :
    (Expr.treat e type span).Lightens d around n (foldTreat e type span) := by
  unfold foldTreat
  split
  · split
    · exact .part he (by simp [parts]) rfl
    · exact .error _ rfl
  · split
    · exact .part he (by simp [parts]) rfl
    · exact .refl he

theorem lightens_foldBuiltin {function : Builtin} {args : List Expr} {span : Span}
    (he : (Expr.builtin function args span).Tame d around n) :
    (Expr.builtin function args span).Lightens d around n (foldBuiltin function args span) := by
  have ofMap : ∀ {f : FuncItem → Value} {v : Value}, (∀ g, (f g).Tame d n) →
      (Expr.builtin function args span).Lightens d around n (ofResult ((v.asFunc span).map f)) := by
    intro f v hf
    refine .ofResult rfl fun u computed => ?_
    cases h : v.asFunc span <;> rw [h] at computed <;> cases computed
    exact hf _
  unfold foldBuiltin
  split
  · exact .value (Value.tame_int _) rfl
  · exact ofMap fun _ => Value.tame_int _
  · exact ofMap Value.tame_ofName
  · exact .refl he

theorem Tame.coerce (he : e.Tame d around n) (declared : Option SeqType) (span : Span) :
    (e.coerce declared span).Tame d around n := by
  unfold Expr.coerce
  split
  · split
    · exact he
    · exact tame_iff.2 ⟨⟨trivial, nofun⟩, List.forall_mem_singleton.2 he⟩
  · exact he

theorem Tame.keepTail (he : e.Tame d around n) (tail : Bool) :
    (Compile.keepTail tail e).Tame d around n := by
  unfold Tame
  rwa [kinds_keepTail]

theorem Lightens.keepTail {e' : Expr} (h : e.Lightens d around n e') (open_ : e.item? = none)
    (tail : Bool) : e.Lightens d around n (Compile.keepTail tail e') where
  tame := h.tame.keepTail tail
  lighter := by
    rw [weight_of_kinds_eq (kinds_keepTail tail e')]
    exact h.lighter
  item f constant := by rw [open_] at constant; cases constant

end Expr

theorem Closure.tame_toItem {c : Closure} (origin : c.origin ∈ d.origins)
    (body : c.body.Tame d around n) (supply : Supply) : ((c.toItem []).run supply).1.Tame d n := by
  refine .closure rfl (.inl origin) (fun k mem => ?_) (fun v mem => (body _ mem).value v rfl) (by simp)
  exact (body k mem).fits.mono (.refl d) (List.nil_subset _) (Nat.le_refl _)

namespace PartialApplication

theorem openTypes_fault (params : List SeqType) (holes : List Nat) {f : Fault}
    (failed : openTypes params holes = .error f) : f ≠ .budget := by
  induction holes generalizing f with
  | nil => cases failed
  | cons hole holes ih =>
    have run : openTypes params (hole :: holes) = _ >>= fun type =>
        openTypes params holes >>= fun types => pure (type :: types) := List.mapM_cons ..
    rw [run] at failed
    cases present : params[hole]? <;> rw [present] at failed
    · cases failed
      simp
    · cases rest : openTypes params holes <;> rw [rest] at failed <;> cases failed
      exact ih rest

theorem openType_fault (type : FuncType) (holes : List Nat) {f : Fault}
    (failed : openType type holes = .error f) : f ≠ .budget := by
  unfold openType at failed
  cases opened : openTypes type.params holes with
  | error f' =>
    rw [opened] at failed
    cases failed
    exact openTypes_fault _ _ opened
  | ok types => rw [opened] at failed; cases failed

theorem openVariables_below (item : FuncItem) (first : Nat) (holes : List Nat) {scope : Scope}
    {supply : Supply} (below : ∀ v ∈ scope.vars, v.id.index < supply.nextVar) :
    let result := (openVariables item scope first holes).run supply
    supply.nextVar ≤ result.2.nextVar ∧ ∀ v ∈ result.1.vars, v.id.index < result.2.nextVar := by
  induction holes generalizing first scope supply with
  | nil => exact ⟨Nat.le_refl _, below⟩
  | cons hole holes ih =>
    let name := (item.paramName? hole).getD s!"arg{first + 1}"
    let drawn : Supply := { supply with nextVar := supply.nextVar + 1 }
    have added : ∀ v ∈ (scope.add ⟨supply.nextVar⟩ name none true).vars, v.id.index < drawn.nextVar := by
      intro v mem
      rcases List.mem_append.1 mem with old | new
      · exact Nat.lt_succ_of_lt (below v old)
      · rw [List.mem_singleton.1 new]
        exact Nat.lt_succ_self _
    obtain ⟨grows, all⟩ := ih (first + 1) added
    exact ⟨Nat.le_trans (Nat.le_succ _) grows, all⟩

theorem arrange_atoms (holes : List Nat) {params : List Expr} {pos count : Nat}
    {supplied : List Value}
    (open_ : ∀ e ∈ params, e.isAtom = true ∧ e.Tame d around n) (all : ∀ v ∈ supplied, v.Tame d n) :
    ∀ e ∈ arrange holes params pos count supplied, e.isAtom = true ∧ e.Tame d around n := by
  induction count generalizing pos supplied with
  | zero => simp [arrange]
  | succ count ih =>
    unfold arrange
    split
    · rename_i param found
      obtain ⟨i, -, hi⟩ := Option.bind_eq_some_iff.1 found
      exact List.forall_mem_cons.2 ⟨open_ _ (List.mem_of_getElem? hi), ih all⟩
    · refine List.forall_mem_cons.2 ⟨⟨rfl, Expr.tame_value_iff.2 ?_⟩,
        ih fun v mem => all v (List.mem_of_mem_tail mem)⟩
      cases supplied with
      | nil => exact Value.tame_seq (by simp)
      | cons v vs => exact all v (by simp)

theorem make_tame {item : FuncItem} {supplied : List Value} (holes : List Nat) (span : Span)
    (s : Supply) (hitem : item.Tame d s.nextVar) (values : ∀ v ∈ supplied, v.Tame d s.nextVar) :
    Gives (· ≠ .budget) s (make item supplied holes span) fun f t => f.Tame d t.nextVar := by
  have empty : ∀ v ∈ ({} : Scope).vars, v.id.index < s.nextVar := by simp
  obtain ⟨grows, below⟩ := openVariables_below item 0 holes empty
  refine Gives.bind (Gives.liftSupply grows) fun scope t hst same => ?_
  rw [← same] at below
  refine Gives.bind (Gives.liftSupply (by exact Nat.le_refl t.nextVar)) fun origin u htu drawn => ?_
  refine Gives.bind (Gives.liftSupply (by exact Nat.le_refl u.nextVar)) fun id v huv drawn' => ?_
  refine Gives.bind (Gives.ofExcept fun f => openType_fault _ _) fun type w hvw _ => Gives.pure ?_
  have htw := Nat.le_trans htu (Nat.le_trans huv hvw)
  have hsw := Nat.le_trans hst htw
  let params : List Expr := scope.vars.map fun v => .var ⟨v.id, v.slot, v.type, span⟩
  let args := arrange holes params 0 (supplied.length + holes.length) supplied
  have open_ : ∀ e ∈ params, e.isAtom = true ∧ e.Tame d [] w.nextVar :=
    List.forall_mem_map.2 fun v mem => ⟨rfl, Expr.tame_iff.2
      ⟨⟨Nat.lt_of_lt_of_le (below v mem) htw, nofun⟩, nofun⟩⟩
  have atoms : ∀ e ∈ args, e.isAtom = true ∧ e.Tame d [] w.nextVar :=
    arrange_atoms holes open_ fun v mem => (values v mem).mono (.refl d) hsw
  have body : (Expr.dynamicCall ⟨item.isUpdating, true, [], span⟩ (.value (.func item)) args).Tame
      d [] w.nextVar := by
    refine Expr.tame_iff.2 ⟨⟨List.nil_subset _, nofun⟩, List.forall_mem_cons.2 ⟨?_, ?_⟩⟩
    · exact Expr.tame_value_iff.2 (.func (hitem.mono (.refl d) hsw))
    · exact fun e mem => (atoms e mem).2
  exact .closure rfl (.inr ⟨_, item, _, rfl, fun e mem => (atoms e mem).1⟩)
    (fun k mem => (body k mem).fits) (fun v mem => (body _ mem).value v rfl) (by simp)

end PartialApplication

end QueryFunctions
