import QueryFunctions.Proofs.Build.Surface
import QueryFunctions.Proofs.Current.Basic

/-! Code that is still to be compiled. References go to variables that are visible where they stand, and
each let has a variable of its own, drawn while the expression was built and not pinned. So whatever
becomes known of a variable when its let is compiled, only code within that let refers to it. -/
namespace QueryFunctions

def Value.IsPlain (v : Value) : Prop := ∀ f, v.HasItem f → ∃ b, f.code = .builtin b

mutual
/-- The variables of the lets, but for those in the bodies of closures, which have frames of their own. -/
def Expr.lets : Expr → List VarId
  | .value _ | .var _ | .focus _ | .error _ => []
  | .letIn id _ bound body => id :: (bound.lets ++ body.lets)
  | .branch cond yes no _ => cond.lets ++ (yes.lets ++ no.lets)
  | .arith _ lhs rhs _ | .compare _ lhs rhs _ => lhs.lets ++ rhs.lets
  | .seq items => listLets items
  | .treat expr _ _ => expr.lets
  | .builtin _ args _ | .call _ args => listLets args
  | .closure c | .literal _ c => c.lets
  | .partialApply _ target args => target.lets ++ listLets args
  | .dynamicCall _ callee args => callee.lets ++ listLets args
termination_by structural x => x

def listLets : List Expr → List VarId
  | [] => []
  | e :: es => e.lets ++ listLets es
termination_by structural x => x

def Closure.lets : Closure → List VarId
  | ⟨_, _, _, _, _, _, captures, _, _, _⟩ => suppliesLets captures
termination_by structural x => x

def suppliesLets : List (VarId × Expr) → List VarId
  | [] => []
  | (_, e) :: es => e.lets ++ suppliesLets es
termination_by structural x => x
end

/-- Distinct variables below `n` that are not visible. -/
structure Apart (n : Nat) (visible : VarId → Prop) (ids : List VarId) : Prop where
  distinct : ids.Nodup
  free : ∀ id ∈ ids, id.index < n ∧ ¬visible id

namespace Apart

variable {n n' : Nat} {visible visible' : VarId → Prop} {first second : List VarId}

theorem nil : Apart n visible [] := ⟨List.nodup_nil, nofun⟩

theorem mono (h : Apart n visible first) (le : n ≤ n') (fewer : ∀ id, visible' id → visible id) :
    Apart n' visible' first :=
  ⟨h.distinct, fun id mem => ⟨Nat.lt_of_lt_of_le (h.free id mem).1 le,
    fun seen => (h.free id mem).2 (fewer id seen)⟩⟩

theorem left (h : Apart n visible (first ++ second)) : Apart n visible first :=
  ⟨(List.nodup_append.1 h.distinct).1, fun id mem => h.free id (List.mem_append_left _ mem)⟩

theorem right (h : Apart n visible (first ++ second)) : Apart n visible second :=
  ⟨(List.nodup_append.1 h.distinct).2.1, fun id mem => h.free id (List.mem_append_right _ mem)⟩

theorem absent (h : Apart n visible (first ++ second)) {id : VarId} (mem : id ∈ second) : id ∉ first :=
  fun other => (List.nodup_append.1 h.distinct).2.2 id other id mem rfl

theorem within {id : VarId} (h : Apart n visible (id :: first)) :
    Apart n (fun x => x = id ∨ visible x) first := by
  obtain ⟨fresh, distinct⟩ := List.nodup_cons.1 h.distinct
  refine ⟨distinct, fun x mem => ⟨(h.free x (List.mem_cons_of_mem _ mem)).1, ?_⟩⟩
  rintro (rfl | seen)
  · exact fresh mem
  · exact (h.free x (List.mem_cons_of_mem _ mem)).2 seen

end Apart

/-- The parameters and the captured variables, which are visible everywhere in the body. -/
def Closure.Own (c : Closure) (id : VarId) : Prop := id ∈ c.params ∨ id ∈ c.captures.map Prod.fst

namespace Expr

/-- The code is current and not compiled yet, and all variables were drawn below `n`. -/
inductive Staged (n : Nat) : Listing → (VarId → Prop) → Expr → Prop
  | value {known visible v} : v.IsPlain → Staged n known visible (.value v)
  | var {known visible} {ref : VarRef} : visible ref.id → known ref.id ref.slot ref.type →
    Staged n known visible (.var ref)
  | letIn {known visible id slot type bound body} : known id slot type →
    Staged n known visible bound → Staged n known (fun x => x = id ∨ visible x) body →
    Staged n known visible (.letIn id slot bound body)
  | closure {known visible} {c : Closure} : c.compiled = false → c.Fits { nextVar := n } →
    (∀ q ∈ c.captures, Staged n known visible q.2) → Staged n c.scope.Lists c.Own c.body →
    Apart n c.Own c.body.lets → Staged n known visible (.closure c)
  | literal {known visible site} {c : Closure} : Staged n known visible (.closure c) →
    Staged n known visible (.literal site c)
  | inner {known visible e} : e.sharesFrame = true → e.binder? = none →
    (∀ p ∈ e.parts, Staged n known visible p) → Staged n known visible e

variable {n n' : Nat} {known known' : Listing} {visible visible' : VarId → Prop}

theorem Staged.mono {e : Expr} (h : e.Staged n known visible) (le : n ≤ n')
    (more : ∀ {id slot type}, known id slot type → known' id slot type)
    (seen : ∀ {id}, visible id → visible' id) : e.Staged n' known' visible' := by
  induction h generalizing known' visible' with
  | value plain => exact .value plain
  | var sees here => exact .var (seen sees) (more here)
  | letIn here _ _ bound body => exact .letIn (more here) (bound more seen) (body more (.imp_right seen))
  | closure raw fits _ _ apart captures body =>
    exact .closure raw (fits.mono le) (fun q mem => captures q mem more seen) (body id id)
      (apart.mono le fun _ own => own)
  | literal _ closure => exact .literal (closure more seen)
  | inner shares bare _ parts => exact .inner shares bare fun p mem => parts p mem more seen

theorem Staged.current {e : Expr} {supply : Supply} (h : e.Staged n known visible)
    (le : n ≤ supply.nextVar) : e.Current supply known := by
  induction h with
  | value plain => exact current_value.2 (Value.current_of_plain plain)
  | var _ here => exact current_var.2 here
  | letIn here _ _ bound body => exact current_letIn.2 ⟨⟨_, here⟩, bound, body⟩
  | closure _ fits _ _ _ captures body =>
    exact current_closure.2 ⟨fits.mono le, captures, body⟩
  | literal _ closure => exact current_literal.2 closure
  | inner shares bare _ parts => exact (current_bare shares bare).2 parts

theorem Staged.part {e p : Expr} (h : e.Staged n known visible) (shares : e.sharesFrame = true)
    (bare : e.binder? = none) (mem : p ∈ e.parts) : p.Staged n known visible := by
  cases h with
  | inner _ _ parts => exact parts p mem
  | value | var | closure | literal => cases shares
  | letIn => cases bare

theorem staged_var {ref : VarRef} : (Expr.var ref).Staged n known visible ↔
    visible ref.id ∧ known ref.id ref.slot ref.type := by
  refine ⟨?_, fun h => .var h.1 h.2⟩
  rintro (_ | ⟨sees, here⟩ | _ | _ | _ | ⟨⟨⟩, _⟩)
  exact ⟨sees, here⟩

theorem staged_letIn {id : VarId} {slot : Nat} {bound body : Expr} :
    (Expr.letIn id slot bound body).Staged n known visible ↔ (∃ type, known id slot type) ∧
      bound.Staged n known visible ∧ body.Staged n known fun x => x = id ∨ visible x := by
  constructor
  · rintro (_ | _ | ⟨here, bound, body⟩ | _ | _ | ⟨_, ⟨⟩, _⟩)
    exact ⟨⟨_, here⟩, bound, body⟩
  · rintro ⟨⟨_, here⟩, bound, body⟩
    exact .letIn here bound body

theorem staged_literal {site : LiteralSite} {c : Closure} : (Expr.literal site c).Staged n known visible ↔
    (Expr.closure c).Staged n known visible := by
  refine ⟨?_, .literal⟩
  rintro (_ | _ | _ | _ | h | ⟨⟨⟩, _⟩)
  exact h

theorem staged_closure {c : Closure} : (Expr.closure c).Staged n known visible ↔ c.compiled = false ∧
    c.Fits { nextVar := n } ∧ (∀ q ∈ c.captures, q.2.Staged n known visible) ∧
      c.body.Staged n c.scope.Lists c.Own ∧ Apart n c.Own c.body.lets := by
  constructor
  · rintro (_ | _ | _ | ⟨raw, fits, captures, body, apart⟩ | _ | ⟨⟨⟩, _⟩)
    exact ⟨raw, fits, captures, body, apart⟩
  · rintro ⟨raw, fits, captures, body, apart⟩
    exact .closure raw fits captures body apart

end Expr

theorem Closure.lets_eq (c : Closure) : c.lets = suppliesLets c.captures := by
  cases c
  rw [Closure.lets]

theorem suppliesLets_eq (es : List (VarId × Expr)) : suppliesLets es = listLets (es.map Prod.snd) := by
  induction es with
  | nil => rfl
  | cons q es ih => rw [suppliesLets, ih, List.map_cons, listLets]

theorem listLets_append (es es' : List Expr) : listLets (es ++ es') = listLets es ++ listLets es' := by
  induction es with
  | nil => rfl
  | cons e es ih => rw [List.cons_append, listLets, listLets, ih, List.append_assoc]

theorem listLets_eq_nil {es : List Expr} (none : ∀ e ∈ es, e.lets = []) : listLets es = [] := by
  induction es with
  | nil => rfl
  | cons e es ih => rw [listLets, none e (by simp), ih fun x mem => none x (by simp [mem]), List.nil_append]

theorem Expr.lets_eq_parts {e : Expr} (shares : e.sharesFrame = true) (bare : e.binder? = none) :
    e.lets = listLets e.parts := by
  cases e with
  | letIn => cases bare
  | value | var | closure | literal => cases shares
  | _ => simp [Expr.lets, Expr.parts, listLets]

namespace Frame

variable {f g : Frame} {name : String} {params : List VarId} {supply t : Supply}

theorem Grows.keeps (h : f.Grows g) : f.scope.Keeps g.scope := by
  intro id v found
  obtain ⟨more, same⟩ := h.vars
  unfold Scope.find? at found ⊢
  rw [← same, List.find?_append, found]
  rfl

/-- Captured variables are pinned. -/
def Pins (f : Frame) : Prop :=
  ∀ id ∈ f.captures.map Prod.fst, ∃ v ∈ f.scope.vars, v.id = id ∧ v.pinned = true

theorem Begins.pins (h : f.Begins params supply) : f.Pins := by
  unfold Pins
  rw [h.captures]
  exact nofun

theorem Pins.capture (h : f.Pins) (name : String) (outer : VarId) :
    ((f.capture name outer).run supply).1.2.Pins := by
  let v : Variable := ⟨⟨supply.nextVar⟩, name, none, .item, f.scope.freeSlot, true⟩
  have vars : ((f.capture name outer).run supply).1.2.scope.vars = f.scope.vars ++ [v] := rfl
  have captures : ((f.capture name outer).run supply).1.2.captures = f.captures ++ [(v.id, outer)] := rfl
  intro id mem
  rw [captures, List.map_append] at mem
  rcases List.mem_append.1 mem with old | last
  · obtain ⟨w, among, same⟩ := h id old
    exact ⟨w, vars ▸ List.mem_append_left _ among, same⟩
  · exact ⟨v, vars ▸ List.mem_append_right _ List.mem_cons_self, (List.mem_singleton.1 last).symm, rfl⟩

theorem resolve_pins (name : String) (outer : List Frame) : ∀ {f : Frame} {supply t : Supply},
    (∀ g ∈ f :: outer, g.Pins) → ∀ {id : VarId} {g : Frame} {rest : List Frame},
    (resolve name f outer).run supply = (some (id, g, rest), t) → ∀ h ∈ g :: rest, h.Pins := by
  induction outer with
  | nil =>
    intro f supply t pins id g rest found
    obtain ⟨own, -, eq⟩ := Option.map_eq_some_iff.1 (congrArg Prod.fst found : (f.find? name).map _ = _)
    cases eq
    exact pins
  | cons next outer ih =>
    intro f supply t pins id g rest found
    cases present : f.find? name with
    | some own =>
      unfold resolve at found
      rw [present] at found
      cases found
      exact pins
    | none =>
      cases capturing : f.capturing with
      | false =>
        rw [resolve_run_of_closed present capturing] at found
        cases found
      | true =>
        rcases inner : (resolve name next outer).run supply with ⟨_ | ⟨id', g', rest'⟩, u⟩
        · rw [resolve_run_of_none present capturing inner] at found
          cases found
        · rw [resolve_run_of_some present capturing inner] at found
          cases found
          refine List.forall_mem_cons.2 ⟨(pins f List.mem_cons_self).capture name id', ?_⟩
          exact ih (fun h mem => pins h (List.mem_cons_of_mem _ mem)) inner

end Frame

/-- The expressions were built between the two states, in the frame that is at hand in both. -/
structure BuildState.Builds (s t : BuildState) (es : List Expr) : Prop where
  staged : ∀ e ∈ es, e.Staged t.supply.nextVar t.frame.scope.Lists (· ∈ t.frame.visible)
  distinct : (listLets es).Nodup
  lets : ∀ id ∈ listLets es, s.supply.nextVar ≤ id.index ∧ id.index < t.supply.nextVar ∧
    ∃ v ∈ t.frame.scope.vars, v.id = id ∧ v.pinned = false

namespace BuildState.Builds

variable {s s' t u : BuildState} {e : Expr} {es es' : List Expr}

theorem nil : s.Builds t [] := ⟨List.forall_mem_nil _, List.nodup_nil, List.forall_mem_nil _⟩

theorem leaf (staged : e.Staged t.supply.nextVar t.frame.scope.Lists (· ∈ t.frame.visible))
    (none : e.lets = []) : s.Builds t [e] := by
  have empty : listLets [e] = [] := listLets_eq_nil fun x mem => List.mem_singleton.1 mem ▸ none
  refine ⟨fun x mem => List.mem_singleton.1 mem ▸ staged, empty ▸ List.nodup_nil, ?_⟩
  rw [empty]
  exact nofun

theorem mono (h : s.Builds t es) (before : s'.supply.nextVar ≤ s.supply.nextVar) (after : t.Grows u) :
    s'.Builds u es where
  staged e mem := (h.staged e mem).mono after.supply after.frame.keeps.lists after.frame.visible
  distinct := h.distinct
  lets id mem := by
    obtain ⟨lower, upper, v, among, same⟩ := h.lets id mem
    exact ⟨Nat.le_trans before lower, Nat.lt_of_lt_of_le upper after.supply, v,
      after.frame.vars.subset among, same⟩

theorem later (h : s.Builds t es) (after : t.Grows u) : s.Builds u es := h.mono (Nat.le_refl _) after

theorem join (first : s.Builds t es) (second : s.Builds t es')
    (apart : ∀ id ∈ listLets es, id ∉ listLets es') : s.Builds t (es ++ es') := by
  refine ⟨fun e mem => (List.mem_append.1 mem).elim (first.staged e) (second.staged e), ?_, ?_⟩ <;>
    rw [listLets_append]
  · exact List.nodup_append.2 ⟨first.distinct, second.distinct,
      fun id mem other mem' same => apart id mem (same ▸ mem')⟩
  · exact fun id mem => (List.mem_append.1 mem).elim (first.lets id) (second.lets id)

theorem append (first : s.Builds t es) (hst : s.Grows t) (second : t.Builds u es') (htu : t.Grows u) :
    s.Builds u (es ++ es') :=
  (first.later htu).join (second.mono hst.supply (.refl u)) fun id mem other =>
    Nat.lt_irrefl _ (Nat.lt_of_lt_of_le (first.lets id mem).2.1 (second.lets id other).1)

theorem prepend (first : s.Builds t es) (hst : s.Grows t) (second : t.Builds u es') (htu : t.Grows u) :
    s.Builds u (es' ++ es) :=
  (second.mono hst.supply (.refl u)).join (first.later htu) fun id mem other =>
    Nat.lt_irrefl _ (Nat.lt_of_lt_of_le (first.lets id other).2.1 (second.lets id mem).1)

theorem node (h : s.Builds t e.parts) (shares : e.sharesFrame = true) (bare : e.binder? = none) :
    s.Builds t [e] := by
  have same : listLets [e] = listLets e.parts := by
    rw [listLets, listLets, List.append_nil, Expr.lets_eq_parts shares bare]
  refine ⟨fun x mem => List.mem_singleton.1 mem ▸ .inner shares bare h.staged, ?_, ?_⟩ <;> rw [same]
  · exact h.distinct
  · exact h.lets

theorem one_staged (h : s.Builds t [e]) :
    e.Staged t.supply.nextVar t.frame.scope.Lists (· ∈ t.frame.visible) := h.staged e List.mem_cons_self

theorem mem_listLets {id : VarId} (mem : id ∈ e.lets) : id ∈ listLets [e] := List.mem_append_left _ mem

theorem one_distinct (h : s.Builds t [e]) : e.lets.Nodup := by
  have distinct := h.distinct
  rwa [listLets, listLets, List.append_nil] at distinct

end BuildState.Builds

theorem BuildState.Builds.apart {s t : BuildState} {e : Expr} (h : s.Builds t [e])
    (sound : t.frame.scope.Sound t.supply) {visible : VarId → Prop}
    (pinned : ∀ id, visible id → ∃ v ∈ t.frame.scope.vars, v.id = id ∧ v.pinned = true) :
    Apart t.supply.nextVar visible e.lets := by
  refine ⟨h.one_distinct, fun id mem => ?_⟩
  obtain ⟨-, upper, v, among, same, free⟩ := h.lets id (mem_listLets mem)
  refine ⟨upper, fun seen => ?_⟩
  obtain ⟨w, there, other, fixed⟩ := pinned id seen
  have distinct := sound.distinct
  rw [Scope.layout, List.map_map] at distinct
  obtain rfl : v = w := List.inj_on_of_nodup_map distinct among there (same.trans other.symm)
  cases free.symm.trans fixed

end QueryFunctions
