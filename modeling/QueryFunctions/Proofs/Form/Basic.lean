import QueryFunctions.Proofs.Expr.Nodes
import QueryFunctions.Proofs.Scope.Sound

/-! Well-formed code. Each reference names a variable of the scope of its function body, in the slot of
that variable, and stands where the variable is bound: below a let, or in a body whose parameter or
captured variable it is. Calls name functions that may be called and have as many arguments as these have
parameters. Function items are well formed wherever they stand, and so is all that stands inside
well-formed code. -/
namespace QueryFunctions

def QueryError.isResolution : QueryError → Bool
  | .resolution _ _ _ _ => true
  | _ => false

/-- What code may refer to outside of its function body. -/
structure World where
  /-- Functions that may be called with so many arguments. -/
  calls : FuncId → Nat → Prop
  /-- Errors that code may raise. -/
  error : QueryError → Prop
  /-- The open positions of partial applications are positions of their arguments. -/
  exact : Prop
  /-- Closures have no variable in common with the functions around them. -/
  apart : Prop
  common : ∀ e, e.isResolution = false → error e

/-- Faults that code of the world may meet. -/
def World.faults (w : World) : Fault → Prop
  | .budget => True
  | .missingParameter _ => ¬w.exact
  | _ => False

/-- Where code stands. -/
structure Place where
  /-- The scope of the function body. -/
  scope : Scope
  /-- The identities that are drawn so far. -/
  supply : Supply
  /-- Variables that have a value whenever the code is run. -/
  bound : VarId → Prop
  /-- The code may ask for the focus. -/
  focus : Prop
  /-- Slots that no let may write to. -/
  spared : Nat → Prop
  /-- Variables of the function bodies around. -/
  outer : VarId → Prop

/-- What the scope of a place has to leave alone. -/
structure Reserve where
  spared : Nat → Prop
  outer : VarId → Prop

namespace Place

def reserve (p : Place) : Reserve := ⟨p.spared, p.outer⟩

/-- Variables of the function body and of those around it. -/
def claims (p : Place) (id : VarId) : Prop := p.outer id ∨ id ∈ p.scope.layout.map Prod.fst

def Drawn (p : Place) (supply : Supply) : Prop := ∀ id, p.claims id → id.index < supply.nextVar

theorem Drawn.mono {p : Place} {s t : Supply} (h : p.Drawn s) (le : s.nextVar ≤ t.nextVar) : p.Drawn t :=
  fun id claimed => Nat.lt_of_lt_of_le (h id claimed) le

/-- A function inside the code may have that scope. -/
def Apart (p : Place) (inner : Scope) : Prop := ∀ id ∈ inner.layout.map Prod.fst, ¬p.claims id

theorem Apart.grown {p : Place} {inner inner' : Scope} {supply : Supply} (apart : p.Apart inner)
    (fresh : ∀ x ∈ inner'.layout, x ∈ inner.layout ∨ supply.nextVar ≤ x.1.index) (drawn : p.Drawn supply) :
    p.Apart inner' := by
  intro id mem claimed
  obtain ⟨x, known, rfl⟩ := List.mem_map.1 mem
  rcases fresh x known with old | new
  · exact apart x.1 (List.mem_map_of_mem old) claimed
  · exact Nat.lt_irrefl _ (Nat.lt_of_lt_of_le (drawn x.1 claimed) new)

def opened (p : Place) (id : VarId) : Place := { p with bound := fun x => x = id ∨ p.bound x }

def ofBody (scope : Scope) (params captured : List VarId) (supply : Supply) : Place where
  scope
  supply
  bound id := id ∈ params ∨ id ∈ captured
  focus := True
  spared slot := ∃ id ∈ params, (id, slot) ∈ scope.layout
  outer _ := False

def inside (p : Place) (scope : Scope) (params captured : List VarId) : Place :=
  { ofBody scope params captured p.supply with outer := p.claims }

structure Le (p q : Place) : Prop where
  scope : q.scope.Extends p.scope
  supply : p.supply.nextVar ≤ q.supply.nextVar
  bound : ∀ {id}, p.bound id → q.bound id
  focus : p.focus → q.focus
  spared : ∀ {slot}, q.spared slot → p.spared slot
  claims : ∀ {id}, q.claims id → p.claims id ∨ p.supply.nextVar ≤ id.index

instance : LE Place := ⟨Le⟩

theorem le_refl (p : Place) : p ≤ p := ⟨.refl _, Nat.le_refl _, id, id, id, .inl⟩

theorem le_refocus {p : Place} {focus : Prop} (h : p.focus → focus) : p ≤ { p with focus } :=
  ⟨.refl _, Nat.le_refl _, id, h, id, .inl⟩

theorem le_within {p : Place} {outer : VarId → Prop} (h : ∀ {id}, outer id → p.claims id) :
    p ≤ { p with outer } :=
  ⟨.refl _, Nat.le_refl _, id, id, id, fun claimed => .inl (claimed.elim h .inr)⟩

/-- An expression that stands at `p` may stand at `q`, as far as it mentions what the two differ in. -/
structure Suits (p q : Place) (e : Expr) : Prop where
  scope : q.scope.Extends p.scope
  supply : p.supply.nextVar ≤ q.supply.nextVar
  bound : ∀ id, e.references id = true → p.bound id → q.bound id
  focus : e.seesFocus = true → p.focus → q.focus
  spared : ∀ {slot}, q.spared slot → p.spared slot
  claims : ∀ {id}, q.claims id → p.claims id ∨ p.supply.nextVar ≤ id.index

namespace Suits

variable {p q : Place} {e : Expr}

theorem of_le (h : p ≤ q) (e : Expr) : p.Suits q e :=
  ⟨h.scope, h.supply, fun _ _ => h.bound, fun _ => h.focus, h.spared, h.claims⟩

theorem operand (h : p.Suits q e) {x : Expr} (mem : x ∈ e.operands) : p.Suits q x :=
  ⟨h.scope, h.supply, fun id refers => h.bound id (Expr.references_of_mem_operands mem refers),
    fun sees => h.focus (Expr.seesFocus_of_mem_operands mem sees), h.spared, h.claims⟩

theorem opened (h : p.Suits q e) (id : VarId) : (p.opened id).Suits (q.opened id) e :=
  ⟨h.scope, h.supply, fun x refers => Or.imp_right (h.bound x refers), h.focus, h.spared, h.claims⟩

end Suits

end Place

/-- The scope of a function body with those parameters and captured variables. Parameters keep their
slots for good. -/
structure Scope.Serves (s : Scope) (supply : Supply) (params captured : List VarId) : Prop where
  sound : s.Sound supply
  known : ∀ id, id ∈ params ∨ id ∈ captured → id ∈ s.layout.map Prod.fst
  taken : ∀ id ∈ params, ∀ slot, (id, slot) ∈ s.layout → s.Taken slot

def Closure.place (c : Closure) (supply : Supply) : Place :=
  .ofBody c.scope c.params (c.captures.map Prod.fst) supply

def Closure.placeIn (c : Closure) (p : Place) : Place :=
  p.inside c.scope c.params (c.captures.map Prod.fst)

mutual
inductive Value.Formed (w : World) : Value → Prop
  | int {i} : Value.Formed w (.int i)
  | bool {b} : Value.Formed w (.bool b)
  | str {s} : Value.Formed w (.str s)
  | seq {vs} : (∀ v ∈ vs, Value.Formed w v) → Value.Formed w (.seq vs)
  | func {f} : FuncItem.Formed w f → Value.Formed w (.func f)

inductive FuncItem.Formed (w : World) : FuncItem → Prop
  | builtin {f b} : f.code = .builtin b → FuncItem.Formed w f
  | closure {f params captured body scope supply} :
    f.code = .closure params captured body scope → f.type.arity = params.length →
    scope.Serves supply (params.map (·.id)) (captured.map (·.1.id)) →
    (∀ v ∈ params, (v.id, v.slot) ∈ scope.layout) →
    (∀ q ∈ captured, (q.1.id, q.1.slot) ∈ scope.layout) →
    (∀ q ∈ captured, Value.Formed w q.2) →
    Expr.Formed w (.ofBody scope (params.map (·.id)) (captured.map (·.1.id)) supply) body →
    FuncItem.Formed w f

inductive Expr.Formed (w : World) : Place → Expr → Prop
  | value {p v} : Value.Formed w v → Expr.Formed w p (.value v)
  | var {p ref} : p.bound ref.id → (ref.id, ref.slot) ∈ p.scope.layout → Expr.Formed w p (.var ref)
  | letIn {p id slot bound body} : (id, slot) ∈ p.scope.layout → ¬p.spared slot →
    Expr.Formed w p bound → Expr.Formed w (p.opened id) body →
    Expr.Formed w p (.letIn id slot bound body)
  | branch {p cond yes no span} : Expr.Formed w p cond → Expr.Formed w p yes → Expr.Formed w p no →
    Expr.Formed w p (.branch cond yes no span)
  | arith {p op lhs rhs span} : Expr.Formed w p lhs → Expr.Formed w p rhs →
    Expr.Formed w p (.arith op lhs rhs span)
  | compare {p op lhs rhs span} : Expr.Formed w p lhs → Expr.Formed w p rhs →
    Expr.Formed w p (.compare op lhs rhs span)
  | seq {p items} : (∀ e ∈ items, Expr.Formed w p e) → Expr.Formed w p (.seq items)
  | focus {p span} : p.focus → Expr.Formed w p (.focus span)
  | treat {p e type span} : Expr.Formed w p e → Expr.Formed w p (.treat e type span)
  | builtin {p b args span} : (∀ e ∈ args, Expr.Formed w p e) →
    Expr.Formed w p (.builtin b args span)
  | error {p e} : w.error e → Expr.Formed w p (.error e)
  | closure {p c} : Closure.Formed w p c → Expr.Formed w p (.closure c)
  | literal {p c} {site : LiteralSite} : w.calls site.target c.params.length → c.captures = [] →
    Closure.Formed w p c → Expr.Formed w p (.literal site c)
  | partialApply {p target args} {site : PartialSite} :
    (w.exact → ∀ hole ∈ site.holes, hole < args.length + site.holes.length) →
    Expr.Formed w p target → (∀ e ∈ args, Expr.Formed w p e) →
    Expr.Formed w p (.partialApply site target args)
  | call {p args} {site : CallSite} : w.calls site.target args.length →
    (∀ e ∈ args, Expr.Formed w p e) → Expr.Formed w p (.call site args)
  | dynamicCall {p site callee args} : Expr.Formed w p callee → (∀ e ∈ args, Expr.Formed w p e) →
    Expr.Formed w p (.dynamicCall site callee args)

inductive Closure.Formed (w : World) : Place → Closure → Prop
  | intro {p c} : c.scope.Serves p.supply c.params (c.captures.map Prod.fst) →
    (w.apart → p.Apart c.scope) → (∀ q ∈ c.captures, Expr.Formed w p q.2) →
    Expr.Formed w (c.placeIn p) c.body → Closure.Formed w p c
end

namespace Scope.Serves

variable {s : Scope} {supply supply' : Supply} {params captured : List VarId}

theorem empty (supply : Supply) : ({} : Scope).Serves supply [] [] :=
  ⟨.empty supply, by simp, by simp⟩

theorem declare (h : s.Serves supply params captured) (name : String) (declared : Option SeqType) :
    let p := (s.declare name declared true).run supply
    p.1.2.Serves p.2 (params ++ [p.1.1]) captured := by
  change (s.add ⟨supply.nextVar⟩ name declared true).Serves _ (params ++ [⟨supply.nextVar⟩]) captured
  have sound := h.sound.add name declared true
  have kept : (s.add ⟨supply.nextVar⟩ name declared true).Extends s := fun x mem => by
    rw [layout_add]
    exact List.mem_append_left _ mem
  have new : (⟨supply.nextVar⟩, s.freeSlot) ∈
      (s.add ⟨supply.nextVar⟩ name declared true).layout := by
    rw [layout_add]
    exact List.mem_append_right _ List.mem_cons_self
  refine ⟨sound, fun id mem => ?_, fun id mem slot here => ?_⟩
  · have cases : (id ∈ params ∨ id ∈ captured) ∨ id = ⟨supply.nextVar⟩ := by
      simp only [List.mem_append, List.mem_singleton] at mem
      tauto
    rcases cases with old | rfl
    · obtain ⟨x, known, rfl⟩ := List.mem_map.1 (h.known id old)
      exact List.mem_map_of_mem (kept x known)
    · exact List.mem_map_of_mem new
  · rw [taken_add]
    rcases List.mem_append.1 mem with old | last
    · obtain ⟨x, known, rfl⟩ := List.mem_map.1 (h.known id (.inl old))
      exact .inl (sound.slot_eq (kept x known) here ▸ h.taken x.1 old x.2 known)
    · obtain rfl := List.mem_singleton.1 last
      exact .inr (sound.slot_eq here new)

theorem declare_own (h : s.Serves supply (s.vars.map (·.id)) []) (name : String) :
    let grown := s.add ⟨supply.nextVar⟩ name none true
    grown.Serves { supply with nextVar := supply.nextVar + 1 } (grown.vars.map (·.id)) [] ∧
      grown.vars.length = s.vars.length + 1 := by
  have declared := h.declare name none
  refine ⟨?_, by simp [add]⟩
  rwa [show (s.add ⟨supply.nextVar⟩ name none true).vars.map (·.id) =
    s.vars.map (·.id) ++ [⟨supply.nextVar⟩] by simp [add]]

theorem mono (h : s.Serves supply params captured) (le : supply.nextVar ≤ supply'.nextVar) :
    s.Serves supply' params captured := { h with sound := h.sound.mono le }

end Scope.Serves

theorem Place.ofBody_le (scope : Scope) (params captured : List VarId) {supply supply' : Supply}
    (le : supply.nextVar ≤ supply'.nextVar) :
    Place.ofBody scope params captured supply ≤ .ofBody scope params captured supply' :=
  ⟨.refl _, le, id, id, id, .inl⟩

section

variable {p q : Place} (le : p.supply.nextVar ≤ q.supply.nextVar)
  (claims : ∀ {id}, q.claims id → p.claims id ∨ p.supply.nextVar ≤ id.index)

include claims

theorem Place.Apart.onto {scope : Scope} (apart : p.Apart scope) (sound : scope.Sound p.supply) :
    q.Apart scope := by
  intro id mem claimed
  obtain ⟨x, known, rfl⟩ := List.mem_map.1 mem
  rcases claims claimed with old | new
  · exact apart x.1 mem old
  · exact Nat.lt_irrefl _ (Nat.lt_of_lt_of_le (sound.fresh x known) new)

include le

theorem Place.inside_le (scope : Scope) (params captured : List VarId) :
    p.inside scope params captured ≤ q.inside scope params captured := by
  refine ⟨.refl _, le, id, id, id, ?_⟩
  rintro id (claimed | own)
  · exact (claims claimed).imp_left .inl
  · exact .inl (.inr own)

end

mutual
theorem Expr.Formed.onto {w : World} : {p q : Place} → {e : Expr} → e.Formed w p → p.Suits q e →
    e.Formed w q
  | _, _, _, .value hv, _ => .value hv
  | _, _, _, .var bound mem, h => .var (h.bound _ (by simp [Expr.references_var]) bound) (h.scope _ mem)
  | _, _, _, .letIn mem spared hbound hbody, h =>
    .letIn (h.scope _ mem) (fun s => spared (h.spared s))
      (hbound.onto (h.operand (by simp [Expr.operands])))
      (hbody.onto ((h.operand (by simp [Expr.operands])).opened _))
  | _, _, _, .branch hcond hyes hno, h =>
    .branch (hcond.onto (h.operand (by simp [Expr.operands])))
      (hyes.onto (h.operand (by simp [Expr.operands])))
      (hno.onto (h.operand (by simp [Expr.operands])))
  | _, _, _, .arith hl hr, h =>
    .arith (hl.onto (h.operand (by simp [Expr.operands])))
      (hr.onto (h.operand (by simp [Expr.operands])))
  | _, _, _, .compare hl hr, h =>
    .compare (hl.onto (h.operand (by simp [Expr.operands])))
      (hr.onto (h.operand (by simp [Expr.operands])))
  | _, _, _, .seq hitems, h => .seq fun e mem => (hitems e mem).onto (h.operand mem)
  | _, _, _, .focus hp, h => .focus (h.focus rfl hp)
  | _, _, _, .treat he, h => .treat (he.onto (h.operand (by simp [Expr.operands])))
  | _, _, _, .builtin hargs, h => .builtin fun e mem => (hargs e mem).onto (h.operand mem)
  | _, _, _, .error he, _ => .error he
  | _, _, _, .closure hc, h =>
    .closure (hc.onto h.supply h.claims fun _ mem => h.operand (List.mem_map_of_mem mem))
  | _, _, _, .literal called bare hc, h =>
    .literal called bare (hc.onto h.supply h.claims fun _ mem => by simp [bare] at mem)
  | _, _, _, .partialApply holes htarget hargs, h =>
    .partialApply holes (htarget.onto (h.operand List.mem_cons_self))
      fun e mem => (hargs e mem).onto (h.operand (List.mem_cons_of_mem _ mem))
  | _, _, _, .call called hargs, h => .call called fun e mem => (hargs e mem).onto (h.operand mem)
  | _, _, _, .dynamicCall hcallee hargs, h =>
    .dynamicCall (hcallee.onto (h.operand List.mem_cons_self))
      fun e mem => (hargs e mem).onto (h.operand (List.mem_cons_of_mem _ mem))

theorem Closure.Formed.onto {w : World} : {p q : Place} → {c : Closure} → c.Formed w p →
    p.supply.nextVar ≤ q.supply.nextVar →
    (∀ {id}, q.claims id → p.claims id ∨ p.supply.nextVar ≤ id.index) →
    (∀ x ∈ c.captures, p.Suits q x.2) → c.Formed w q
  | _, _, c, .intro serves apart hcaptures hbody, le, claims, h =>
    .intro (serves.mono le) (fun hw => (apart hw).onto claims serves.sound)
      (fun x mem => (hcaptures x mem).onto (h x mem))
      (hbody.onto (.of_le (Place.inside_le le claims _ _ _) c.body))
end

namespace Expr

variable {w : World} {p q : Place} {e : Expr}

theorem Formed.mono (he : e.Formed w p) (h : p ≤ q) : e.Formed w q := he.onto (.of_le h e)

theorem formed_mono {es : List Expr} (hes : ∀ e ∈ es, e.Formed w p) (h : p ≤ q) :
    ∀ e ∈ es, e.Formed w q := fun e mem => (hes e mem).mono h

theorem Formed.closed {id : VarId} (he : e.Formed w (p.opened id))
    (unused : e.references id = false) : e.Formed w p := by
  refine he.onto ⟨.refl _, Nat.le_refl _, fun x refers bound => ?_, fun _ h => h, fun h => h, .inl⟩
  refine bound.resolve_left fun same => ?_
  rw [same, unused] at refers
  cases refers

theorem Formed.unfocused (he : e.Formed w p) (blind : e.seesFocus = false) :
    e.Formed w { p with focus := False } :=
  he.onto ⟨.refl _, Nat.le_refl _, fun _ _ h => h, fun sees => by simp [blind] at sees, fun h => h, .inl⟩

end Expr

theorem Closure.Formed.mono {w : World} {p q : Place} {c : Closure} (hc : c.Formed w p)
    (h : p ≤ q) : c.Formed w q := hc.onto h.supply h.claims fun x _ => .of_le h x.2

theorem Closure.Formed.body {w : World} {p : Place} {c : Closure} (hc : c.Formed w p) :
    c.body.Formed w (c.place p.supply) := by
  cases hc with
  | intro _ _ _ hbody => exact hbody.mono (Place.le_within False.elim)

/-- Function items in a value, and those that they have captured. -/
inductive Value.HasItem : Value → FuncItem → Prop
  | item {f} : HasItem (.func f) f
  | captured {f params captured body scope q g} : f.code = .closure params captured body scope →
    q ∈ captured → HasItem q.2 g → HasItem (.func f) g
  | member {vs v f} : v ∈ vs → HasItem v f → HasItem (.seq vs) f

theorem Value.HasItem.of_ofItems {vs : List Value} {f : FuncItem} (has : (Value.ofItems vs).HasItem f) :
    ∃ v ∈ vs, v.HasItem f := by
  have flattened : ∀ v ∈ vs.flatMap Value.items, v.HasItem f → ∃ u ∈ vs, u.HasItem f := by
    intro v mem has
    obtain ⟨u, among, mem⟩ := List.mem_flatMap.1 mem
    cases u with
    | seq us => exact ⟨_, among, .member mem has⟩
    | _ => exact ⟨_, among, List.mem_singleton.1 mem ▸ has⟩
  unfold Value.ofItems at has
  split at has
  · rename_i v single
    exact flattened v (by simp [single]) has
  · cases has with
    | member mem has => exact flattened _ mem has

inductive Expr.Includes : Expr → Expr → Prop
  | self {e} : Includes e e
  | part {e p x} : p ∈ e.parts → Includes p x → Includes e x
  | item {v f params captured body scope x} : v.HasItem f →
    f.code = .closure params captured body scope → Includes body x → Includes (.value v) x

variable {w : World} {p : Place}

theorem Value.Formed.item {v : Value} {f : FuncItem} (has : v.HasItem f) (hv : v.Formed w) :
    f.Formed w := by
  induction has with
  | item =>
    cases hv with
    | func hf => exact hf
  | captured code mem _ ih =>
    cases hv with
    | func hf =>
      cases hf with
      | builtin other => cases code.symm.trans other
      | closure same _ _ _ _ values _ =>
        cases code.symm.trans same
        exact ih (values _ mem)
  | member mem _ ih =>
    cases hv with
    | seq all => exact ih (all _ mem)

theorem FuncItem.Formed.body {f : FuncItem} {params : List Variable}
    {captured : List (Variable × Value)} {body : Expr} {scope : Scope} (hf : f.Formed w)
    (code : f.code = .closure params captured body scope) :
    ∃ supply, scope.Serves supply (params.map (·.id)) (captured.map (·.1.id)) ∧
      body.Formed w (.ofBody scope (params.map (·.id)) (captured.map (·.1.id)) supply) := by
  cases hf with
  | builtin other => cases code.symm.trans other
  | closure same _ serves _ _ _ hbody =>
    cases code.symm.trans same
    exact ⟨_, serves, hbody⟩

namespace Expr

theorem Formed.operand {e x : Expr} (he : e.Formed w p) (mem : x ∈ e.operands) :
    ∃ bound, x.Formed w { p with bound } := by
  cases he with
  | value | var | focus | error | literal => cases mem
  | letIn _ _ hbound hbody =>
    obtain rfl | rfl : x = _ ∨ x = _ := by simpa [operands] using mem
    · exact ⟨_, hbound⟩
    · exact ⟨_, hbody⟩
  | branch hcond hyes hno =>
    obtain rfl | rfl | rfl : x = _ ∨ x = _ ∨ x = _ := by simpa [operands] using mem
    · exact ⟨_, hcond⟩
    · exact ⟨_, hyes⟩
    · exact ⟨_, hno⟩
  | arith hl hr | compare hl hr =>
    obtain rfl | rfl : x = _ ∨ x = _ := by simpa [operands] using mem
    · exact ⟨_, hl⟩
    · exact ⟨_, hr⟩
  | treat he => exact ⟨_, List.mem_singleton.1 mem ▸ he⟩
  | seq all | builtin all | call _ all => exact ⟨_, all x mem⟩
  | closure hc =>
    cases hc with
    | intro _ _ hcaptures _ =>
      obtain ⟨q, here, rfl⟩ := List.mem_map.1 mem
      exact ⟨_, hcaptures q here⟩
  | partialApply _ htarget hargs | dynamicCall htarget hargs =>
    rcases List.mem_cons.1 mem with rfl | mem
    · exact ⟨_, htarget⟩
    · exact ⟨_, hargs x mem⟩

theorem Formed.part {e x : Expr} (he : e.Formed w p) (mem : x ∈ e.parts) : ∃ q, x.Formed w q := by
  have ofOperand : x ∈ e.operands → ∃ q, x.Formed w q := fun mem =>
    let ⟨bound, hx⟩ := he.operand mem
    ⟨_, hx⟩
  cases he with
  | closure hc =>
    rcases List.mem_append.1 mem with captured | body
    · exact ofOperand captured
    · cases hc with
      | intro _ _ _ hbody => exact ⟨_, List.mem_singleton.1 body ▸ hbody⟩
  | literal _ bare hc =>
    cases hc with
    | intro _ _ _ hbody =>
      rw [parts, bare] at mem
      exact ⟨_, List.mem_singleton.1 mem ▸ hbody⟩
  | _ => exact ofOperand mem

theorem Formed.included {e x : Expr} (includes : e.Includes x) (he : e.Formed w p) :
    ∃ q, x.Formed w q := by
  induction includes generalizing p with
  | self => exact ⟨p, he⟩
  | part mem _ ih =>
    obtain ⟨q, hpart⟩ := he.part mem
    exact ih hpart
  | item has code _ ih =>
    cases he with
    | value hv =>
      obtain ⟨_, -, hbody⟩ := (hv.item has).body code
      exact ih hbody

end Expr

end QueryFunctions
