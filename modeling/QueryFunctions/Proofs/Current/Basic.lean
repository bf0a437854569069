import QueryFunctions.Proofs.Hygiene.Basic
import QueryFunctions.Proofs.Scope.Sound

/-! Code that is up to date. A reference carries the slot and the type of its variable, and the scope has
them, too; code is current as long as the two agree, in closures and function items with the scope that goes
with them. Copies take slots and types from the scope, so copied code is the same only if it is current. -/
namespace QueryFunctions

/-- Variables with their slots and types. -/
abbrev Listing := VarId → Nat → SeqType → Prop

namespace Scope

/-- The scope has a variable with that identity, in that slot and of that type. -/
def Lists (s : Scope) : Listing := fun id slot type =>
  ∃ v, s.find? id = some v ∧ v.slot = slot ∧ v.type = type

/-- What the scope lists, but for variables that are pending. -/
def Knows (s : Scope) (pending : VarId → Prop) : Listing := fun id slot type =>
  ¬pending id ∧ s.Lists id slot type

def Keeps (s t : Scope) : Prop := ∀ id v, s.find? id = some v → t.find? id = some v

variable {s t u : Scope}

theorem Keeps.refl (s : Scope) : s.Keeps s := fun _ _ found => found

theorem Keeps.trans (first : s.Keeps t) (second : t.Keeps u) : s.Keeps u :=
  fun id v found => second id v (first id v found)

theorem Keeps.isSome (h : s.Keeps t) {id : VarId} (known : (s.find? id).isSome = true) :
    (t.find? id).isSome = true := by
  obtain ⟨v, found⟩ := Option.isSome_iff_exists.1 known
  rw [h id v found]
  rfl

theorem Keeps.lists (h : s.Keeps t) {id : VarId} {slot : Nat} {type : SeqType} :
    s.Lists id slot type → t.Lists id slot type :=
  fun ⟨v, found, same⟩ => ⟨v, h id v found, same⟩

theorem Keeps.knows (h : s.Keeps t) {pending : VarId → Prop} {id : VarId} {slot : Nat}
    {type : SeqType} : s.Knows pending id slot type → t.Knows pending id slot type :=
  fun ⟨free, lists⟩ => ⟨free, h.lists lists⟩

theorem lists_of_find? {id : VarId} {v : Variable} (found : s.find? id = some v) :
    s.Lists id v.slot v.type := ⟨v, found, rfl, rfl⟩

theorem isSome_of_lists {id : VarId} {slot : Nat} {type : SeqType} (lists : s.Lists id slot type) :
    (s.find? id).isSome = true := by
  obtain ⟨v, found, -⟩ := lists
  rw [found]
  rfl

end Scope

def Listing.DrawnFrom (known : Listing) (supply : Supply) : Prop :=
  ∀ {id slot type}, known id slot type → id.index < supply.nextVar

theorem Scope.Sound.drawnFrom {s : Scope} {supply : Supply} (h : s.Sound supply) :
    Listing.DrawnFrom s.Lists supply := by
  rintro id _ _ ⟨v, found, -⟩
  exact h.fresh _ (Scope.mem_layout_of_find? found).2

/-- The scope of the closure was drawn from the supply and has all parameters and captured variables. -/
structure Closure.Fits (supply : Supply) (c : Closure) : Prop where
  sound : c.scope.Sound supply
  params : ∀ p ∈ c.params, (c.scope.find? p).isSome = true
  keys : ∀ q ∈ c.captures, (c.scope.find? q.1).isSome = true

theorem Closure.Fits.mono {supply supply' : Supply} {c : Closure} (h : c.Fits supply)
    (le : supply.nextVar ≤ supply'.nextVar) : c.Fits supply' := { h with sound := h.sound.mono le }

namespace Expr

def binder? : Expr → Option (VarId × Nat)
  | .letIn id slot _ _ => some (id, slot)
  | _ => none

/-- References and lets agree with the listing, and in closures and items with the scopes of these. -/
inductive Current (supply : Supply) : Listing → Expr → Prop
  | value {known v} : (∀ f params captured body scope, v.HasItem f →
      f.code = .closure params captured body scope → scope.Sound supply) →
    (∀ f params captured body scope, v.HasItem f → f.code = .closure params captured body scope →
      Current supply scope.Lists body) → Current supply known (.value v)
  | var {known} {ref : VarRef} : known ref.id ref.slot ref.type → Current supply known (.var ref)
  | closure {known} {c : Closure} : c.Fits supply → (∀ q ∈ c.captures, Current supply known q.2) →
    Current supply c.scope.Lists c.body → Current supply known (.closure c)
  | literal {known site} {c : Closure} : c.Fits supply → (∀ q ∈ c.captures, Current supply known q.2) →
    Current supply c.scope.Lists c.body → Current supply known (.literal site c)
  | inner {known e} : e.sharesFrame = true → (∀ p, e.binder? = some p → ∃ type, known p.1 p.2 type) →
    (∀ p ∈ e.parts, Current supply known p) → Current supply known e

end Expr

def FuncItem.Current (supply : Supply) (f : FuncItem) : Prop :=
  ∀ params captured body scope, f.code = .closure params captured body scope →
    scope.Sound supply ∧ body.Current supply scope.Lists

/-- All function items in the value, and those that they have captured, are current. -/
def Value.Current (supply : Supply) (v : Value) : Prop := ∀ f, v.HasItem f → f.Current supply

variable {supply supply' : Supply} {known known' : Listing}

namespace Expr

theorem Current.mono {e : Expr} (h : e.Current supply known) (le : supply.nextVar ≤ supply'.nextVar)
    (more : ∀ {id slot type}, known id slot type → known' id slot type) : e.Current supply' known' := by
  induction h generalizing known' with
  | value sound _ bodies =>
    exact .value (fun f params captured body scope has code => (sound f _ _ _ _ has code).mono le)
      fun f params captured body scope has code => bodies f _ _ _ _ has code fun lists => lists
  | var same => exact .var (more same)
  | closure fits _ _ captures body =>
    exact .closure (fits.mono le) (fun q mem => captures q mem more) (body fun lists => lists)
  | literal fits _ _ captures body =>
    exact .literal (fits.mono le) (fun q mem => captures q mem more) (body fun lists => lists)
  | inner shares binder _ parts =>
    exact .inner shares (fun p same => (binder p same).imp fun _ => more) fun p mem => parts p mem more

theorem current_value {v : Value} : (Expr.value v).Current supply known ↔ v.Current supply := by
  constructor
  · rintro (⟨sound, bodies⟩ | _ | _ | _ | ⟨⟨⟩, _⟩)
    exact fun f has params captured body scope code =>
      ⟨sound f params captured body scope has code, bodies f params captured body scope has code⟩
  · intro items
    exact .value (fun f params captured body scope has code => (items f has _ _ _ _ code).1)
      fun f params captured body scope has code => (items f has _ _ _ _ code).2

theorem current_var {ref : VarRef} :
    (Expr.var ref).Current supply known ↔ known ref.id ref.slot ref.type := by
  refine ⟨?_, .var⟩
  rintro (_ | same | _ | _ | ⟨⟨⟩, _⟩)
  exact same

theorem current_closure {c : Closure} : (Expr.closure c).Current supply known ↔ c.Fits supply ∧
    (∀ q ∈ c.captures, q.2.Current supply known) ∧ c.body.Current supply c.scope.Lists := by
  refine ⟨?_, fun h => .closure h.1 h.2.1 h.2.2⟩
  rintro (_ | _ | ⟨fits, captures, body⟩ | _ | ⟨⟨⟩, _⟩)
  exact ⟨fits, captures, body⟩

theorem current_literal {site : LiteralSite} {c : Closure} :
    (Expr.literal site c).Current supply known ↔ (Expr.closure c).Current supply known := by
  rw [current_closure]
  refine ⟨?_, fun h => .literal h.1 h.2.1 h.2.2⟩
  rintro (_ | _ | _ | ⟨fits, captures, body⟩ | ⟨⟨⟩, _⟩)
  exact ⟨fits, captures, body⟩

theorem current_inner {e : Expr} (shares : e.sharesFrame = true) : e.Current supply known ↔
    (∀ p, e.binder? = some p → ∃ type, known p.1 p.2 type) ∧ ∀ p ∈ e.parts, p.Current supply known := by
  refine ⟨fun h => ?_, fun h => .inner shares h.1 h.2⟩
  cases h with
  | inner _ binder parts => exact ⟨binder, parts⟩
  | value | var | closure | literal => cases shares

theorem current_bare {e : Expr} (shares : e.sharesFrame = true) (bare : e.binder? = none) :
    e.Current supply known ↔ ∀ p ∈ e.parts, p.Current supply known := by
  rw [current_inner shares, bare]
  exact and_iff_right nofun

@[simp] theorem current_focus {span : Span} : (Expr.focus span).Current supply known :=
  .inner rfl nofun nofun

@[simp] theorem current_error {err : QueryError} : (Expr.error err).Current supply known :=
  .inner rfl nofun nofun

@[simp] theorem current_letIn {id : VarId} {slot : Nat} {bound body : Expr} :
    (Expr.letIn id slot bound body).Current supply known ↔ (∃ type, known id slot type) ∧
      bound.Current supply known ∧ body.Current supply known :=
  (current_inner rfl).trans (by simp [parts, binder?])

@[simp] theorem current_branch {cond yes no : Expr} {span : Span} :
    (Expr.branch cond yes no span).Current supply known ↔
      cond.Current supply known ∧ yes.Current supply known ∧ no.Current supply known :=
  (current_bare rfl rfl).trans (by simp [parts])

@[simp] theorem current_arith {op : ArithOp} {lhs rhs : Expr} {span : Span} :
    (Expr.arith op lhs rhs span).Current supply known ↔
      lhs.Current supply known ∧ rhs.Current supply known :=
  (current_bare rfl rfl).trans (by simp [parts])

@[simp] theorem current_compare {op : CompareOp} {lhs rhs : Expr} {span : Span} :
    (Expr.compare op lhs rhs span).Current supply known ↔
      lhs.Current supply known ∧ rhs.Current supply known :=
  (current_bare rfl rfl).trans (by simp [parts])

@[simp] theorem current_seq {items : List Expr} :
    (Expr.seq items).Current supply known ↔ ∀ e ∈ items, e.Current supply known :=
  current_bare rfl rfl

@[simp] theorem current_treat {e : Expr} {type : SeqType} {span : Span} :
    (Expr.treat e type span).Current supply known ↔ e.Current supply known :=
  (current_bare rfl rfl).trans List.forall_mem_singleton

@[simp] theorem current_builtin {b : Builtin} {args : List Expr} {span : Span} :
    (Expr.builtin b args span).Current supply known ↔ ∀ e ∈ args, e.Current supply known :=
  current_bare rfl rfl

@[simp] theorem current_partialApply {site : PartialSite} {target : Expr} {args : List Expr} :
    (Expr.partialApply site target args).Current supply known ↔
      target.Current supply known ∧ ∀ e ∈ args, e.Current supply known :=
  (current_bare rfl rfl).trans List.forall_mem_cons

@[simp] theorem current_call {site : CallSite} {args : List Expr} :
    (Expr.call site args).Current supply known ↔ ∀ e ∈ args, e.Current supply known :=
  current_bare rfl rfl

@[simp] theorem current_dynamicCall {site : DynamicSite} {callee : Expr} {args : List Expr} :
    (Expr.dynamicCall site callee args).Current supply known ↔
      callee.Current supply known ∧ ∀ e ∈ args, e.Current supply known :=
  (current_bare rfl rfl).trans List.forall_mem_cons

theorem Current.included {e x : Expr} (h : e.Current supply known) (drawn : known.DrawnFrom supply)
    (includes : e.Includes x) : ∃ known, known.DrawnFrom supply ∧ x.Current supply known := by
  induction includes generalizing known with
  | self => exact ⟨known, drawn, h⟩
  | part mem _ ih =>
    cases h with
    | value | var => cases mem
    | inner _ _ parts => exact ih (parts _ mem) drawn
    | closure fits captures body | literal fits captures body =>
      rcases List.mem_append.1 mem with captured | last
      · obtain ⟨q, among, rfl⟩ := List.mem_map.1 captured
        exact ih (captures q among) drawn
      · exact ih (List.mem_singleton.1 last ▸ body) fits.sound.drawnFrom
  | item has code _ ih =>
    obtain ⟨sound, body⟩ := current_value.1 h _ has _ _ _ _ code
    exact ih body sound.drawnFrom

end Expr

namespace Value

theorem Current.mono {v : Value} (h : v.Current supply) (le : supply.nextVar ≤ supply'.nextVar) :
    v.Current supply' := by
  intro f has params captured body scope code
  obtain ⟨sound, current⟩ := h f has _ _ _ _ code
  exact ⟨sound.mono le, current.mono le fun lists => lists⟩

theorem current_of_plain {v : Value} (plain : ∀ f, v.HasItem f → ∃ b, f.code = .builtin b) :
    v.Current supply := by
  intro f has params captured body scope code
  obtain ⟨b, other⟩ := plain f has
  cases code.symm.trans other

@[simp] theorem current_int {i : Int64} : (Value.int i).Current supply := current_of_plain nofun

@[simp] theorem current_bool {b : Bool} : (Value.bool b).Current supply := current_of_plain nofun

@[simp] theorem current_str {s : String} : (Value.str s).Current supply := current_of_plain nofun

theorem Current.captured {f : FuncItem} (h : (Value.func f).Current supply) {params : List Variable}
    {captured : List (Variable × Value)} {body : Expr} {scope : Scope}
    (code : f.code = .closure params captured body scope) {q : Variable × Value} (mem : q ∈ captured) :
    q.2.Current supply := fun g has => h g (.captured code mem has)

theorem current_func {f : FuncItem} (own : f.Current supply)
    (values : ∀ params captured body scope, f.code = .closure params captured body scope →
      ∀ q ∈ captured, q.2.Current supply) : (Value.func f).Current supply := by
  intro g has
  cases has with
  | item => exact own
  | captured code mem has => exact values _ _ _ _ code _ mem g has

theorem current_seq {vs : List Value} (all : ∀ v ∈ vs, v.Current supply) :
    (Value.seq vs).Current supply := by
  intro f has
  cases has with
  | member mem has => exact all _ mem f has

@[simp] theorem current_empty : Value.empty.Current supply := current_seq nofun

theorem current_ofItems {vs : List Value} (all : ∀ v ∈ vs, v.Current supply) :
    (Value.ofItems vs).Current supply := by
  intro f has
  obtain ⟨v, mem, has⟩ := has.of_ofItems
  exact all v mem f has

end Value

end QueryFunctions
