import QueryFunctions.Proofs.Compile.Code
import QueryFunctions.Proofs.Current.Simplify
import QueryFunctions.Proofs.Current.Staging
import QueryFunctions.Proofs.Form.Code

/-! Compiled code is current. The walk over staged code changes what is known of a variable only at the let
that binds it, so of all variables but those of the lets in an expression it is told that they do not
change. The simplifier is told that the variables of all other lets are pending, as long as they are not
visible. -/
namespace QueryFunctions

namespace Scope

/-- The scope has all variables of the listing, in the same slots, but maybe of other types. -/
def Has (s : Scope) (known : Listing) : Prop :=
  ∀ id slot type, known id slot type → (id, slot) ∈ s.layout

def KeepsOthers (ids : List VarId) (s t : Scope) : Prop :=
  ∀ id v, id ∉ ids → s.find? id = some v → t.find? id = some v

variable {first second : List VarId} {s t u : Scope}

theorem Keeps.others (h : s.Keeps t) : KeepsOthers first s t := fun id v _ found => h id v found

theorem KeepsOthers.more (h : KeepsOthers first s t) (sub : first ⊆ second) : KeepsOthers second s t :=
  fun id v other found => h id v (fun mem => other (sub mem)) found

theorem KeepsOthers.trans (h : KeepsOthers first s t) (h' : KeepsOthers first t u) :
    KeepsOthers first s u := fun id v other found => h' id v other (h id v other found)

theorem KeepsOthers.append (h : KeepsOthers first s t) (h' : KeepsOthers second t u) :
    KeepsOthers (first ++ second) s u :=
  (h.more (List.subset_append_left _ _)).trans (h'.more (List.subset_append_right _ _))

theorem has_lists (s : Scope) : s.Has s.Lists := by
  rintro id slot type ⟨v, found, rfl, -⟩
  exact (mem_layout_of_find? found).2

theorem Has.extends {known : Listing} (h : s.Has known) (grows : t.Extends s) : t.Has known :=
  fun id slot type here => grows _ (h id slot type here)

theorem Has.of_layout {known : Listing} (h : s.Has known) (layout : t.layout = s.layout) :
    t.Has known := fun id slot type here => layout ▸ h id slot type here

theorem Sound.lists_of_has {known : Listing} {supply : Supply} (sound : s.Sound supply)
    (has : s.Has known) {id : VarId} {slot : Nat} {type : SeqType} (here : known id slot type) :
    ∃ v, s.find? id = some v ∧ v.slot = slot := by
  have mem := has id slot type here
  obtain ⟨v, found⟩ := Option.isSome_iff_exists.1 (isSome_find?_iff.2 (List.mem_map_of_mem mem))
  exact ⟨v, found, sound.slot_eq (mem_layout_of_find? found).2 mem⟩

theorem keepsOthers_refine (s : Scope) (id : VarId) (type : SeqType) :
    KeepsOthers [id] s (s.refine id type) := by
  intro other v apart found
  rw [refine, find?_update s id (fun v => ?_), if_neg]
  · exact found
  · exact fun same => apart (List.mem_singleton.2 same)
  · split <;> rfl

end Scope

/-- Variables that were there before compilation, and are neither visible nor those of lets at hand. -/
def Foreign (n : Nat) (visible : VarId → Prop) (lets : List VarId) (id : VarId) : Prop :=
  id.index < n ∧ ¬visible id ∧ id ∉ lets

/-- Compiled bodies are current, and the others are still to be compiled. A function that is being compiled
has no body. -/
structure CompileState.Stocked (n : Nat) (s : CompileState) : Prop extends s.Current n where
  pending : ∀ f entry body, s.registry.find? f = some entry → entry.stage = .pending →
    entry.body = some body → body.Staged n entry.scope.Lists (· ∈ entry.params) ∧
      Apart n (· ∈ entry.params) body.lets
  compiling : ∀ f entry, s.registry.find? f = some entry → entry.stage = .compiling → entry.body = none

/-- Variables stay in their slots, and functions that are being compiled remain so. -/
structure CompileState.Works (s t : CompileState) : Prop where
  supply : s.supply.nextVar ≤ t.supply.nextVar
  scope : t.scope.Extends s.scope
  compiling : ∀ f entry, s.registry.find? f = some entry → entry.stage = .compiling →
    ∃ entry', t.registry.find? f = some entry' ∧ entry'.stage = .compiling

def stocking (n : Nat) : Pact CompileState where
  holds := CompileState.Stocked n
  leads := CompileState.Works
  refl s := ⟨Nat.le_refl _, .refl _, fun _ entry found going => ⟨entry, found, going⟩⟩
  trans first second := ⟨Nat.le_trans first.supply second.supply, second.scope.trans first.scope,
    fun f entry found going => by
      obtain ⟨entry', found', going'⟩ := first.compiling f entry found going
      exact second.compiling f entry' found' going'⟩
  near _ := True
  back _ := fun h => h

abbrev Compile.Stocks {α : Type} (n : Nat) (o : Options) (s : CompileState) (act : Compile α)
    (post : α → CompileState → Prop) : Prop :=
  (stocking n).Keeps o s act act post

def PrepareStocks (n : Nat) (o : Options) (prepare : FuncId → Compile Unit) : Prop :=
  ∀ id s, s.Stocked n → Compile.Stocks n o s (prepare id) fun _ t => t.scope = s.scope

variable {n : Nat} {visible : VarId → Prop} {first second : List VarId} {o : Options}
  {s t u : CompileState} {known : Listing}

theorem Expr.CurrentAt.later {e : Expr} (he : e.CurrentAt (Foreign n visible first) s) (hst : s.Works t)
    (keeps : Scope.KeepsOthers second s.scope t.scope)
    (apart : ∀ id ∈ second, (id.index < n ∧ ¬visible id) ∧ id ∉ first) :
    e.CurrentAt (Foreign n visible first) t := by
  refine he.mono hst.supply fun {id slot type} here => ?_
  obtain ⟨free, v, found, same⟩ := here
  refine ⟨free, v, keeps id v (fun mem => ?_) found, same⟩
  obtain ⟨⟨early, hidden⟩, other⟩ := apart id mem
  exact free ⟨early, hidden, other⟩

theorem Expr.CurrentAt.more {e : Expr} {visible' : VarId → Prop}
    (he : e.CurrentAt (Foreign n visible' first) s)
    (sub : ∀ id, visible' id ∨ id ∈ first → visible id ∨ id ∈ second) :
    e.CurrentAt (Foreign n visible second) s := by
  refine he.mono (Nat.le_refl _) fun {id _ _} here => ⟨fun foreign => here.1 ?_, here.2⟩
  obtain ⟨early, hidden, other⟩ := foreign
  exact ⟨early, fun seen => (sub id (.inl seen)).elim hidden other,
    fun mem => (sub id (.inr mem)).elim hidden other⟩

theorem Expr.CurrentAt.before {e : Expr} (he : e.CurrentAt (Foreign n visible first) s)
    (hst : s.Works t) (keeps : Scope.KeepsOthers second s.scope t.scope)
    (apart : Apart n visible (first ++ second)) : e.CurrentAt (Foreign n visible (first ++ second)) t :=
  (he.later hst keeps fun id mem => ⟨apart.right.free id mem, apart.absent mem⟩).more
    fun _ => .imp_right (List.mem_append_left _)

theorem Expr.CurrentAt.behind {e : Expr} (he : e.CurrentAt (Foreign n visible second) s) :
    e.CurrentAt (Foreign n visible (first ++ second)) s :=
  he.more fun _ => .imp_right (List.mem_append_right _)

theorem Expr.CurrentAt.works {e : Expr} {pending : VarId → Prop} (he : e.CurrentAt pending s)
    (hst : s.Works t) (same : t.scope = s.scope) : e.CurrentAt pending t :=
  he.mono hst.supply (same ▸ fun here => here)

namespace CompileState.Stocked

theorem inner (hs : s.Stocked n) {scope : Scope} (sound : scope.Sound s.supply) :
    CompileState.Stocked n { s with scope } :=
  ⟨hs.toCurrent.inner sound, hs.pending, hs.compiling⟩

theorem stays (hs : s.Stocked n) (ht : t.Current n) (hst : s.Stays t) : t.Stocked n ∧ s.Works t := by
  have registry := hst.registry
  refine ⟨⟨ht, registry ▸ hs.pending, registry ▸ hs.compiling⟩, hst.supply, fun p mem => ?_,
    fun f entry found going => ⟨entry, registry ▸ found, going⟩⟩
  obtain ⟨v, there⟩ := Option.isSome_iff_exists.1
    (Scope.isSome_find?_iff.2 (List.mem_map_of_mem mem))
  have slot := hs.scope.slot_eq (Scope.mem_layout_of_find? there).2 mem
  have kept := (Scope.mem_layout_of_find? (hst.scope _ v there)).2
  rwa [slot] at kept

end CompileState.Stocked

section

variable {simplify : Expr → Compile Expr} {prepare : FuncId → Compile Unit}
  (simplifies : SimplifierStaysCurrent n o simplify)

include simplifies

theorem Compile.simplified_current {e : Expr} {lets : List VarId} (ht : t.Stocked n)
    (keeps : Scope.KeepsOthers lets s.scope t.scope) (he : e.CurrentAt (Foreign n visible lets) t) :
    Compile.Stocks n o t (simplify e) fun e' u =>
      e'.CurrentAt (Foreign n visible lets) u ∧ Scope.KeepsOthers lets s.scope u.scope := by
  refine (simplifies _ (fun _ foreign => foreign.1) e t ht.toCurrent he).weaken
    (fun _ _ _ => trivial) fun u hu htu => ?_
  obtain ⟨stocked, works⟩ := ht.stays hu htu
  exact ⟨stocked, works, fun e' he' => ⟨he', keeps.trans htu.scope.others⟩⟩

theorem Compile.compileCall_current {site : CallSite} {args : List Expr} {lets : List VarId}
    (ht : t.Stocked n) (keeps : Scope.KeepsOthers lets s.scope t.scope)
    (hargs : ∀ e ∈ args, e.CurrentAt (Foreign n visible lets) t) :
    Compile.Stocks n o t (compileCall simplify site args) fun e' u =>
      e'.CurrentAt (Foreign n visible lets) u ∧ Scope.KeepsOthers lets s.scope u.scope := by
  refine (Pact.Keeps.entryOf ht site.target).bind fun target u hu _ same => ?_
  obtain ⟨-, rfl⟩ := same
  dsimp only
  split
  · rw [Computation.throw_bind]
    exact .throw hu
  · exact simplified_current simplifies hu keeps (Expr.current_call.2 hargs)

omit simplifies

theorem Closure.Fits.adaptTo {c : Closure} {supply : Supply} (fits : c.Fits supply) (target : Entry) :
    (c.adaptTo target).Fits supply := by
  have layout := c.layout_adaptTo target
  refine ⟨fits.sound.of_layout layout (congrArg List.length (c.slots_adaptTo target)), fun p mem => ?_,
    fun q mem => ?_⟩
  · exact Scope.isSome_find?_congr layout p (fits.params p mem)
  · exact Scope.isSome_find?_congr layout q.1 (fits.keys q mem)

theorem Closure.compileParts_current {c : Closure} {supplies : Compile (List (VarId × Expr))}
    {body : Compile Expr} {lets : List VarId} (fits : c.Fits s.supply)
    (hsupplies : Compile.Stocks n o s supplies fun es t => es.map Prod.fst = c.captures.map Prod.fst ∧
      (∀ q ∈ es, q.2.CurrentAt (Foreign n visible lets) t) ∧ Scope.KeepsOthers lets s.scope t.scope)
    (hbody : ∀ t : CompileState, t.Stocked n → t.scope.layout = c.scope.layout →
      Compile.Stocks n o t body fun e u => e.Current u.supply u.scope.Lists) :
    Compile.Stocks n o s (c.compileParts supplies body) fun c' t =>
      (Expr.closure c').CurrentAt (Foreign n visible lets) t ∧ Scope.KeepsOthers lets s.scope t.scope := by
  refine hsupplies.bind fun captures t ht hst made => ?_
  obtain ⟨keys, values, keeps⟩ := made
  have layout := layout_refineAll captures c.scope
  have sound := (fits.sound.mono hst.supply).of_layout layout
    (congrArg List.length (slots_refineAll captures c.scope))
  have entered := Compile.inScope_held _ (hbody _ (ht.inner sound) layout) fun v hv htv =>
    ⟨hv.inner (ht.scope.mono htv.supply), htv.supply, .refl _, htv.compiling⟩
  refine entered.bind fun x u hu htu hx => ?_
  obtain ⟨v, hv, rfl, scope, within, made⟩ := hx
  have grows : x.2.Extends c.scope := fun p mem => scope ▸ within.scope p (layout ▸ mem)
  have listed : ∀ id : VarId, (c.scope.find? id).isSome = true → (x.2.find? id).isSome = true := by
    intro id
    rw [Scope.isSome_find?_iff, Scope.isSome_find?_iff]
    exact fun mem => (List.map_subset _ grows) mem
  have finish : ∀ e, x.1.map (·.coerce c.declared c.span) = .ok e → e.Current v.supply x.2.Lists := by
    intro e found
    cases h : x.1 with
    | error err => simp [h, Except.map] at found
    | ok e' =>
      simp only [h, Except.map, Except.ok.injEq] at found
      exact found ▸ scope ▸ (made e' h).coerce _ _
  have ended : Compile.Stocks n o { v with scope := t.scope }
      (Compile.deferred (x.1.map (·.coerce c.declared c.span)))
      fun e w => e.Current w.supply x.2.Lists ∧ w.scope = t.scope :=
    Pact.Keeps.deferred hu (fun e found => ⟨finish e found, rfl⟩) fun _ => ⟨Expr.current_error, rfl⟩
  refine ended.bind fun e w hw huw he => ?_
  obtain ⟨he, same⟩ := he
  refine (Pact.Keeps.read hw).bind fun options w' hw' _ here => ?_
  obtain ⟨-, rfl⟩ := here
  refine .pure hw' ⟨Expr.current_closure.2 ⟨⟨?_, fun p mem => ?_, fun q mem => ?_⟩, fun q mem => ?_, ?_⟩, ?_⟩
  · exact scope ▸ hv.scope.mono huw.supply
  · exact listed p (fits.params p mem)
  · have key : q.1 ∈ captures.map Prod.fst := List.mem_map_of_mem mem
    rw [keys] at key
    obtain ⟨y, among, same⟩ := List.mem_map.1 key
    exact same ▸ listed y.1 (fits.keys y among)
  · exact ((values q mem).works htu rfl).works huw same
  · exact he.keepTail _
  · exact same ▸ keeps

theorem Compile.compileRef_current {ref : VarRef} (hs : s.Stocked n) (has : s.scope.Has known)
    (sees : visible ref.id) (here : known ref.id ref.slot ref.type) :
    Compile.Stocks n o s (compileRef ref) fun e t =>
      e.CurrentAt (Foreign n visible []) t ∧ t.scope = s.scope := by
  refine (Pact.Keeps.get hs).bind fun _ t ht _ same => ?_
  obtain ⟨rfl, rfl⟩ := same
  obtain ⟨v, found, -⟩ := hs.scope.lists_of_has has here
  rw [found]
  exact .pure ht ⟨Expr.current_var.2 ⟨fun foreign => foreign.2.1 sees, v, found, rfl, rfl⟩, rfl⟩

variable (prepares : PrepareStocks n o prepare)

mutual
theorem Expr.compileWith_current (simplifies : SimplifierStaysCurrent n o simplify)
    (prepares : PrepareStocks n o prepare) : (e : Expr) → {known : Listing} → {visible : VarId → Prop} →
    (s : CompileState) → s.Stocked n → s.scope.Has known → e.Staged n known visible →
    Apart n visible e.lets → Compile.Stocks n o s (e.compileWith simplify prepare) fun e' t =>
      e'.CurrentAt (Foreign n visible e.lets) t ∧ Scope.KeepsOthers e.lets s.scope t.scope
  | .value _, _, _, s, hs, _, he, _ =>
    .pure hs ⟨Expr.current_value.2 (Expr.current_value.1 (he.current hs.drawn)), (Scope.Keeps.refl _).others⟩
  | .focus _, _, _, _, hs, _, _, _ => .pure hs ⟨Expr.current_focus, (Scope.Keeps.refl _).others⟩
  | .error _, _, _, _, hs, _, _, _ => .pure hs ⟨Expr.current_error, (Scope.Keeps.refl _).others⟩
  | .var _, _, _, s, hs, has, he, _ => by
    obtain ⟨sees, here⟩ := Expr.staged_var.1 he
    refine (Compile.compileRef_current hs has sees here).mono fun e t _ _ made => ⟨made.1, ?_⟩
    exact made.2 ▸ (Scope.Keeps.refl _).others
  | .letIn id slot bound body, _, visible, s, hs, has, he, apart => by
    rw [Expr.lets] at apart ⊢
    obtain ⟨⟨type, here⟩, hbound, hbody⟩ := Expr.staged_letIn.1 he
    have within := apart.within
    have outside : Apart n visible (bound.lets ++ body.lets) := within.mono (Nat.le_refl _) fun _ => .inr
    refine (Expr.compileWith_current simplifies prepares bound s hs has hbound outside.left).bind
      fun bound' t ht hst made => ?_
    obtain ⟨hbound', keeps⟩ := made
    have refined := Scope.keepsOthers_refine t.scope id bound'.inferredType
    have layout := t.scope.layout_refine id bound'.inferredType
    let u : CompileState := { t with scope := t.scope.refine id bound'.inferredType }
    have hu : u.Stocked n := ht.inner (ht.scope.of_layout layout (congrArg List.length rfl))
    have htu : t.Works u := ⟨Nat.le_refl _, fun p mem => layout.symm ▸ mem,
      fun f entry found going => ⟨entry, found, going⟩⟩
    refine Pact.Keeps.bind (show Compile.Stocks n o t _ fun _ v => v = u from .of_eq rfl hu htu rfl)
      fun _ _ _ _ same => ?_
    subst same
    have known := (has.extends hst.scope).extends htu.scope
    refine (Expr.compileWith_current simplifies prepares body u hu known hbody within.right).bind
      fun body' v hv huv made => ?_
    obtain ⟨hbody', keeps'⟩ := made
    -- The variable of the let is none of those that the bound expression refers to.
    have unchanged : bound'.CurrentAt (Foreign n visible bound.lets) v := by
      refine hbound'.later ((stocking n).trans htu huv) (refined.append keeps') fun x mem => ?_
      refine ⟨apart.free x ?_, fun other => ?_⟩
      · exact (List.mem_cons.1 mem).elim (· ▸ List.mem_cons_self)
          fun mem => List.mem_cons_of_mem _ (List.mem_append_right _ mem)
      · rcases List.mem_cons.1 mem with rfl | mem
        · exact (List.nodup_cons.1 apart.distinct).1 (List.mem_append_left _ other)
        · exact outside.absent mem other
    refine Compile.simplified_current simplifies hv ?_ (Expr.current_letIn.2 ⟨?_, ?_, ?_⟩)
    · exact (keeps.append (refined.append keeps')).more fun x mem => by simpa [or_left_comm] using mem
    · obtain ⟨w, found, slot⟩ := hv.scope.lists_of_has (known.extends huv.scope) here
      exact ⟨w.type, fun foreign => foreign.2.2 List.mem_cons_self, w, found, slot, rfl⟩
    · exact unchanged.more fun x => .imp_right
        fun mem => List.mem_cons_of_mem _ (List.mem_append_left _ mem)
    · refine hbody'.more fun x seen => ?_
      rcases seen with (rfl | seen) | mem
      · exact .inr List.mem_cons_self
      · exact .inl seen
      · exact .inr (List.mem_cons_of_mem _ (List.mem_append_right _ mem))
  | .branch cond yes no span, _, _, s, hs, has, he, apart => by
    rw [Expr.lets] at apart ⊢
    have hcond := he.part rfl rfl (p := cond) (by simp [Expr.parts])
    have hyes := he.part rfl rfl (p := yes) (by simp [Expr.parts])
    have hno := he.part rfl rfl (p := no) (by simp [Expr.parts])
    refine (Expr.compileWith_current simplifies prepares cond s hs has hcond apart.left).bind
      fun cond' t ht hst made => ?_
    obtain ⟨hcond', first⟩ := made
    have has := has.extends hst.scope
    refine (Expr.compileWith_current simplifies prepares yes t ht has hyes apart.right.left).bind
      fun yes' u hu htu made => ?_
    obtain ⟨hyes', second⟩ := made
    have has := has.extends htu.scope
    refine (Expr.compileWith_current simplifies prepares no u hu has hno apart.right.right).bind
      fun no' v hv huv made => ?_
    obtain ⟨hno', third⟩ := made
    have rest := second.append third
    exact Compile.simplified_current simplifies hv (first.append rest) (Expr.current_branch.2
      ⟨hcond'.before ((stocking n).trans htu huv) rest apart, (hyes'.before huv third apart.right).behind,
        hno'.behind.behind⟩)
  | .arith op lhs rhs span, _, _, s, hs, has, he, apart => by
    rw [Expr.lets] at apart ⊢
    have hl := he.part rfl rfl (p := lhs) (by simp [Expr.parts])
    have hr := he.part rfl rfl (p := rhs) (by simp [Expr.parts])
    refine (Expr.compileWith_current simplifies prepares lhs s hs has hl apart.left).bind
      fun lhs' t ht hst made => ?_
    obtain ⟨hl', first⟩ := made
    refine (Expr.compileWith_current simplifies prepares rhs t ht (has.extends hst.scope) hr apart.right).bind
      fun rhs' u hu htu made => ?_
    exact Compile.simplified_current simplifies hu (first.append made.2)
      (Expr.current_arith.2 ⟨hl'.before htu made.2 apart, made.1.behind⟩)
  | .compare op lhs rhs span, _, _, s, hs, has, he, apart => by
    rw [Expr.lets] at apart ⊢
    have hl := he.part rfl rfl (p := lhs) (by simp [Expr.parts])
    have hr := he.part rfl rfl (p := rhs) (by simp [Expr.parts])
    refine (Expr.compileWith_current simplifies prepares lhs s hs has hl apart.left).bind
      fun lhs' t ht hst made => ?_
    obtain ⟨hl', first⟩ := made
    refine (Expr.compileWith_current simplifies prepares rhs t ht (has.extends hst.scope) hr apart.right).bind
      fun rhs' u hu htu made => ?_
    exact Compile.simplified_current simplifies hu (first.append made.2)
      (Expr.current_compare.2 ⟨hl'.before htu made.2 apart, made.1.behind⟩)
  | .seq items, _, _, s, hs, has, he, apart => by
    rw [Expr.lets] at apart ⊢
    refine (compileList_current simplifies prepares items s hs has
      (fun e mem => he.part rfl rfl mem) apart).bind fun items' t ht hst made => ?_
    exact Compile.simplified_current simplifies ht made.2 (Expr.current_seq.2 made.1)
  | .treat expr type span, _, _, s, hs, has, he, apart => by
    rw [Expr.lets] at apart ⊢
    have he := he.part rfl rfl (p := expr) (by simp [Expr.parts])
    refine (Expr.compileWith_current simplifies prepares expr s hs has he apart).bind
      fun expr' t ht hst made => ?_
    exact Compile.simplified_current simplifies ht made.2 (Expr.current_treat.2 made.1)
  | .builtin function args span, _, _, s, hs, has, he, apart => by
    rw [Expr.lets] at apart ⊢
    refine (compileList_current simplifies prepares args s hs has
      (fun e mem => he.part rfl rfl mem) apart).bind fun args' t ht hst made => ?_
    exact Compile.simplified_current simplifies ht made.2 (Expr.current_builtin.2 made.1)
  | .closure c, _, _, s, hs, has, he, apart => by
    rw [Expr.lets] at apart ⊢
    rw [Expr.compileWith, (Expr.staged_closure.1 he).1, if_neg Bool.false_ne_true]
    refine (Closure.compileWith_current simplifies prepares c s hs has he apart).bind
      fun c' t ht hst made => ?_
    exact Compile.simplified_current simplifies ht made.2 made.1
  | .literal site c, _, _, s, hs, has, he, apart => by
    rw [Expr.lets] at apart ⊢
    have hc := Expr.staged_literal.1 he
    rw [Expr.compileWith, (Expr.staged_closure.1 hc).1, if_neg Bool.false_ne_true]
    refine (prepares site.target s hs).bind fun _ t ht hst same => ?_
    refine (Pact.Keeps.entryOf ht site.target).bind fun target u hu _ here => ?_
    obtain ⟨-, rfl⟩ := here
    refine (Closure.compileAs_current simplifies prepares target c u hu (has.extends hst.scope) hc apart).bind
      fun c' v hv huv made => ?_
    exact Compile.simplified_current simplifies hv (same ▸ made.2) (Expr.current_literal.2 made.1)
  | .partialApply site target args, _, _, s, hs, has, he, apart => by
    rw [Expr.lets] at apart ⊢
    have htarget := he.part rfl rfl (p := target) (by simp [Expr.parts])
    have hargs := fun e (mem : e ∈ args) => he.part rfl rfl (p := e) (by simp [Expr.parts, mem])
    refine (Expr.compileWith_current simplifies prepares target s hs has htarget apart.left).bind
      fun target' t ht hst made => ?_
    obtain ⟨htarget', first⟩ := made
    refine (compileList_current simplifies prepares args t ht (has.extends hst.scope) hargs apart.right).bind
      fun args' u hu htu made => ?_
    exact Compile.simplified_current simplifies hu (first.append made.2) (Expr.current_partialApply.2
      ⟨htarget'.before htu made.2 apart, fun e mem => (made.1 e mem).behind⟩)
  | .call site args, _, _, s, hs, has, he, apart => by
    rw [Expr.lets] at apart ⊢
    refine (compileList_current simplifies prepares args s hs has
      (fun e mem => he.part rfl rfl mem) apart).bind fun args' t ht hst made => ?_
    obtain ⟨hargs, keeps⟩ := made
    refine (prepares site.target t ht).bind fun _ u hu htu same => ?_
    exact Compile.compileCall_current simplifies hu (same ▸ keeps)
      fun e mem => (hargs e mem).works htu same
  | .dynamicCall site callee args, _, _, s, hs, has, he, apart => by
    rw [Expr.lets] at apart ⊢
    have hcallee := he.part rfl rfl (p := callee) (by simp [Expr.parts])
    have hargs := fun e (mem : e ∈ args) => he.part rfl rfl (p := e) (by simp [Expr.parts, mem])
    refine (Expr.compileWith_current simplifies prepares callee s hs has hcallee apart.left).bind
      fun callee' t ht hst made => ?_
    obtain ⟨hcallee', first⟩ := made
    refine (compileList_current simplifies prepares args t ht (has.extends hst.scope) hargs apart.right).bind
      fun args' u hu htu made => ?_
    exact Compile.simplified_current simplifies hu (first.append made.2) (Expr.current_dynamicCall.2
      ⟨hcallee'.before htu made.2 apart, fun e mem => (made.1 e mem).behind⟩)

theorem compileList_current (simplifies : SimplifierStaysCurrent n o simplify)
    (prepares : PrepareStocks n o prepare) : (es : List Expr) → {known : Listing} → {visible : VarId → Prop} →
    (s : CompileState) → s.Stocked n → s.scope.Has known → (∀ e ∈ es, e.Staged n known visible) →
    Apart n visible (listLets es) → Compile.Stocks n o s (compileList simplify prepare es) fun es' t =>
      (∀ e ∈ es', e.CurrentAt (Foreign n visible (listLets es)) t) ∧
        Scope.KeepsOthers (listLets es) s.scope t.scope
  | [], _, _, _, hs, _, _, _ => .pure hs ⟨nofun, (Scope.Keeps.refl _).others⟩
  | e :: es, _, _, s, hs, has, all, apart => by
    rw [listLets] at apart ⊢
    refine (Expr.compileWith_current simplifies prepares e s hs has (all e (by simp)) apart.left).bind
      fun e' t ht hst made => ?_
    obtain ⟨he', first⟩ := made
    refine (compileList_current simplifies prepares es t ht (has.extends hst.scope)
      (fun x mem => all x (by simp [mem]))
      apart.right).bind fun es' u hu htu made => .pure hu ⟨?_, first.append made.2⟩
    exact List.forall_mem_cons.2 ⟨he'.before htu made.2 apart, fun x mem => (made.1 x mem).behind⟩

theorem Closure.compileWith_current (simplifies : SimplifierStaysCurrent n o simplify)
    (prepares : PrepareStocks n o prepare) : (c : Closure) → {known : Listing} → {visible : VarId → Prop} →
    (s : CompileState) → s.Stocked n → s.scope.Has known → (Expr.closure c).Staged n known visible →
    Apart n visible c.lets → Compile.Stocks n o s (c.compileWith simplify prepare) fun c' t =>
      (Expr.closure c').CurrentAt (Foreign n visible c.lets) t ∧ Scope.KeepsOthers c.lets s.scope t.scope
  | ⟨_, _, body, _, _, scope, captures, _, _, _⟩, _, _, s, hs, has, he, apart => by
    obtain ⟨-, fits, hcaptures, hbody, inside⟩ := Expr.staged_closure.1 he
    rw [Closure.compileWith]
    refine Closure.compileParts_current (fits.mono hs.drawn)
      (compileSupplies_current simplifies prepares captures s hs has hcaptures apart) fun t ht layout => ?_
    have has := scope.has_lists.of_layout layout
    exact (Expr.compileWith_current simplifies prepares body t ht has hbody inside).mono
      fun _ _ _ _ made => made.1.lists

theorem Closure.compileAs_current (simplifies : SimplifierStaysCurrent n o simplify)
    (prepares : PrepareStocks n o prepare) (target : Entry) : (c : Closure) → {known : Listing} →
    {visible : VarId → Prop} → (s : CompileState) → s.Stocked n → s.scope.Has known →
    (Expr.closure c).Staged n known visible → Apart n visible c.lets →
    Compile.Stocks n o s (c.compileAs target simplify prepare) fun c' t =>
      (Expr.closure c').CurrentAt (Foreign n visible c.lets) t ∧ Scope.KeepsOthers c.lets s.scope t.scope
  | ⟨_, _, body, _, _, scope, captures, _, _, _⟩, _, _, s, hs, has, he, apart => by
    obtain ⟨-, fits, hcaptures, hbody, inside⟩ := Expr.staged_closure.1 he
    rw [Closure.compileAs_eq]
    refine Closure.compileParts_current ((fits.mono hs.drawn).adaptTo target)
      (compileSupplies_current simplifies prepares captures s hs has hcaptures apart) fun t ht layout => ?_
    have has := scope.has_lists.of_layout (layout.trans (Closure.layout_adaptTo _ target))
    exact (Expr.compileWith_current simplifies prepares body t ht has hbody inside).mono
      fun _ _ _ _ made => made.1.lists

theorem compileSupplies_current (simplifies : SimplifierStaysCurrent n o simplify)
    (prepares : PrepareStocks n o prepare) : (es : List (VarId × Expr)) → {known : Listing} →
    {visible : VarId → Prop} → (s : CompileState) → s.Stocked n → s.scope.Has known →
    (∀ q ∈ es, q.2.Staged n known visible) → Apart n visible (suppliesLets es) →
    Compile.Stocks n o s (compileSupplies simplify prepare es) fun es' t =>
      es'.map Prod.fst = es.map Prod.fst ∧
        (∀ q ∈ es', q.2.CurrentAt (Foreign n visible (suppliesLets es)) t) ∧
          Scope.KeepsOthers (suppliesLets es) s.scope t.scope
  | [], _, _, _, hs, _, _, _ => .pure hs ⟨rfl, nofun, (Scope.Keeps.refl _).others⟩
  | (id, e) :: es, _, _, s, hs, has, all, apart => by
    rw [suppliesLets] at apart ⊢
    refine (Expr.compileWith_current simplifies prepares e s hs has (all (id, e) (by simp)) apart.left).bind
      fun e' t ht hst made => ?_
    obtain ⟨he', first⟩ := made
    refine (compileSupplies_current simplifies prepares es t ht (has.extends hst.scope)
      (fun x mem => all x (by simp [mem]))
      apart.right).bind fun es' u hu htu made => .pure hu ⟨?_, ?_, first.append made.2.2⟩
    · rw [List.map_cons, List.map_cons, made.1]
    · exact List.forall_mem_cons.2 ⟨he'.before htu made.2.2 apart, fun x mem => (made.2.1 x mem).behind⟩
end

end

end QueryFunctions
