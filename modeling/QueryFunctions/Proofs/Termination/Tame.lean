import QueryFunctions.Proofs.Form.Basic
import QueryFunctions.Proofs.Termination.Weight

/-! Tame code: code that is compiled and may be simplified for good. Its calls of registered functions
stay calls, its closures are closures of the unit, and its dynamic calls come from all the closures that
are being expanded around them. Function items in constants are tame as well: each is made from a closure
of the unit, or hands its arguments on to another one, as partial applications do. -/
namespace QueryFunctions

/-- What simplified code has to go by: the closures of the unit, and the functions whose calls are not
expanded any more. -/
structure Terms where
  origins : Finset Origin
  closed : FuncId → Prop

/-- The body of a partial application: a call of a constant function with nothing but atoms. -/
def Expr.Forwards (e : Expr) : Prop :=
  ∃ site item args, e = .dynamicCall site (.value (.func item)) args ∧ ∀ a ∈ args, a.isAtom = true

/-- `n` bounds the variables, and `around` are the closures that are being expanded. -/
def Kind.Fits (d : Terms) (around : List Origin) (n : Nat) : Kind → Prop
  | .var id => id.index < n
  | .closure origin _ _ => origin ∈ d.origins
  | .call target => d.closed target
  | .dynamicCall inlinedFrom _ => around ⊆ inlinedFrom
  | .value _ | .letIn | .plain => True

/-- An item may be called from anywhere, so nothing is asked of where its calls come from. -/
inductive FuncItem.Tame (d : Terms) (n : Nat) : FuncItem → Prop
  | builtin {f b} : f.code = .builtin b → Tame d n f
  | closure {f params captured body scope} : f.code = .closure params captured body scope →
    f.origin ∈ d.origins ∨ body.Forwards → (∀ k ∈ body.kinds, k.Fits d [] n) →
    (∀ v, .value v ∈ body.kinds → ∀ g, v.HasItem g → Tame d n g) →
    (∀ q ∈ captured, ∀ g, q.2.HasItem g → Tame d n g) → Tame d n f

def Value.Tame (d : Terms) (n : Nat) (v : Value) : Prop := ∀ f, v.HasItem f → f.Tame d n

structure Kind.Tame (d : Terms) (around : List Origin) (n : Nat) (k : Kind) : Prop where
  fits : k.Fits d around n
  value : ∀ v, k = .value v → v.Tame d n

def Expr.Tame (d : Terms) (around : List Origin) (n : Nat) (e : Expr) : Prop :=
  ∀ k ∈ e.kinds, k.Tame d around n

variable {d d' : Terms} {around around' : List Origin} {n m : Nat}

structure Terms.Le (d d' : Terms) : Prop where
  origins : d.origins = d'.origins
  closed : ∀ id, d.closed id → d'.closed id

theorem Terms.Le.refl (d : Terms) : d.Le d := ⟨rfl, fun _ => id⟩

theorem Kind.Fits.mono {k : Kind} (h : k.Fits d around n) (terms : d.Le d') (inside : around' ⊆ around)
    (le : n ≤ m) : k.Fits d' around' m := by
  cases k with
  | var id => exact Nat.lt_of_lt_of_le h le
  | closure origin =>
    change origin ∈ d'.origins
    rwa [← terms.origins]
  | call id => exact terms.closed id h
  | dynamicCall => exact List.Subset.trans inside h
  | _ => trivial

theorem FuncItem.Tame.mono {f : FuncItem} (h : f.Tame d n) (terms : d.Le d') (le : n ≤ m) :
    f.Tame d' m := by
  induction h with
  | builtin code => exact .builtin code
  | closure code origin fits _ _ values captured =>
    refine .closure code (terms.origins ▸ origin) (fun k mem => ?_) values captured
    exact (fits k mem).mono terms (List.Subset.refl _) le

namespace Value

theorem Tame.mono {v : Value} (h : v.Tame d n) (terms : d.Le d') (le : n ≤ m) : v.Tame d' m :=
  fun f has => (h f has).mono terms le

theorem Tame.func {f : FuncItem} (h : f.Tame d n) : (Value.func f).Tame d n := by
  intro g has
  cases has with
  | item => exact h
  | captured code mem has =>
    cases h with
    | builtin other => cases code.symm.trans other
    | closure same _ _ _ values =>
      cases code.symm.trans same
      exact values _ mem g has

theorem tame_seq {vs : List Value} (h : ∀ v ∈ vs, v.Tame d n) : (Value.seq vs).Tame d n := by
  intro f has
  cases has with
  | member mem has => exact h _ mem f has

theorem tame_of_no_items {v : Value} (none : ∀ f, ¬v.HasItem f) : v.Tame d n :=
  fun f has => absurd has (none f)

theorem tame_int (i : Int64) : (Value.int i).Tame d n := tame_of_no_items fun _ => nofun

theorem tame_bool (b : Bool) : (Value.bool b).Tame d n := tame_of_no_items fun _ => nofun

theorem tame_ofName (f : FuncItem) : (ofName f).Tame d n := by
  unfold ofName
  split
  · exact tame_of_no_items fun _ => nofun
  · exact tame_seq (by simp)

theorem tame_ofItems {vs : List Value} (h : ∀ v ∈ vs, v.Tame d n) : (ofItems vs).Tame d n := by
  intro f has
  obtain ⟨v, mem, has⟩ := has.of_ofItems
  exact h v mem f has

end Value

theorem FuncItem.Tame.body {f : FuncItem} {params : List Variable} {captured : List (Variable × Value)}
    {body : Expr} {scope : Scope} (h : f.Tame d n) (code : f.code = .closure params captured body scope) :
    body.Tame d [] n ∧ (f.origin ∈ d.origins ∨ body.Forwards) ∧ ∀ q ∈ captured, q.2.Tame d n := by
  cases h with
  | builtin other => cases code.symm.trans other
  | closure same origin fits values captured =>
    cases code.symm.trans same
    exact ⟨fun k mem => ⟨fits k mem, fun v same => values v (same ▸ mem)⟩, origin, captured⟩

theorem Kind.Tame.mono {k : Kind} (h : k.Tame d around n) (terms : d.Le d') (inside : around' ⊆ around)
    (le : n ≤ m) : k.Tame d' around' m :=
  ⟨h.fits.mono terms inside le, fun v same => (h.value v same).mono terms le⟩

namespace Expr

variable {e e' : Expr}

theorem Tame.mono (h : e.Tame d around n) (terms : d.Le d') (inside : around' ⊆ around) (le : n ≤ m) :
    e.Tame d' around' m := fun k mem => (h k mem).mono terms inside le

theorem Tame.later (h : e.Tame d around n) (le : n ≤ m) : e.Tame d around m :=
  h.mono (.refl d) (List.Subset.refl _) le

theorem tame_iff : e.Tame d around n ↔ e.kind.Tame d around n ∧ ∀ p ∈ e.parts, p.Tame d around n := by
  refine ⟨fun h => ⟨h _ (mem_kinds_iff.2 (.inl rfl)), fun p mem k hk =>
    h k (kinds_subset_of_mem_parts mem hk)⟩, fun ⟨own, parts⟩ k hk => ?_⟩
  rcases mem_kinds_iff.1 hk with rfl | ⟨p, mem, hk⟩
  · exact own
  · exact parts p mem k hk

theorem Tame.part (h : e.Tame d around n) {p : Expr} (mem : p ∈ e.parts) : p.Tame d around n :=
  (tame_iff.1 h).2 p mem

theorem tame_value_iff {v : Value} : (Expr.value v).Tame d around n ↔ v.Tame d n := by
  rw [tame_iff]
  exact ⟨fun h => h.1.value v rfl, fun h => ⟨⟨trivial, fun _ same => by cases same; exact h⟩, nofun⟩⟩

theorem tame_error (err : QueryError) : (Expr.error err).Tame d around n :=
  tame_iff.2 ⟨⟨trivial, nofun⟩, nofun⟩

theorem Tame.atom (h : e.Tame d around n) (atom : e.isAtom = true) (around' : List Origin) :
    e.Tame d around' n := by
  cases e with
  | value v => exact tame_value_iff.2 (tame_value_iff.1 h)
  | var ref => exact tame_iff.2 ⟨⟨(tame_iff.1 h).1.fits, nofun⟩, nofun⟩
  | _ => cases atom

/-- Tame code may take the place of `e`: it weighs no more, and a constant function stays one. -/
structure Lightens (d : Terms) (around : List Origin) (n : Nat) (e e' : Expr) : Prop where
  tame : e'.Tame d around n
  lighter : (e'.weight d.origins).Lighter (e.weight d.origins)
  item : ∀ f, e.item? = some f → e'.item? = some f

namespace Lightens

theorem refl (h : e.Tame d around n) : e.Lightens d around n e := ⟨h, .refl _, fun _ => id⟩

theorem later (h : e.Lightens d around n e') (le : n ≤ m) : e.Lightens d around m e' :=
  { h with tame := h.tame.later le }

theorem value {v : Value} (h : v.Tame d n) (open_ : e.item? = none) :
    e.Lightens d around n (.value v) where
  tame := tame_value_iff.2 h
  lighter := .of_le (by rw [weight_eq]; exact Multiset.zero_le _)
  item f constant := by rw [open_] at constant; cases constant

theorem error (err : QueryError) (open_ : e.item? = none) : e.Lightens d around n (.error err) where
  tame := tame_error err
  lighter := .of_le (by rw [weight_eq]; exact Multiset.zero_le _)
  item f constant := by rw [open_] at constant; cases constant

theorem part (h : e.Tame d around n) {p : Expr} (mem : p ∈ e.parts) (open_ : e.item? = none) :
    e.Lightens d around n p where
  tame := h.part mem
  lighter := .of_le (weight_le_of_mem_parts mem)
  item f constant := by rw [open_] at constant; cases constant

theorem node (own : e'.kind.Tame d around n)
    (charge : (e'.kind.charge d.origins).Lighter (e.kind.charge d.origins))
    (parts : List.Forall₂ (Lightens d around n) e.parts e'.parts) (open_ : e.item? = none) :
    e.Lightens d around n e' where
  tame := by
    refine tame_iff.2 ⟨own, ?_⟩
    clear own charge
    generalize e.parts = es at parts
    generalize e'.parts = es' at parts
    induction parts with
    | nil => exact nofun
    | cons first _ ih => exact List.forall_mem_cons.2 ⟨first.tame, ih⟩
  lighter := weight_node charge (parts.imp fun _ _ h => h.lighter)
  item f constant := by rw [open_] at constant; cases constant

end Lightens

end Expr

end QueryFunctions
