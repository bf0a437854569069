import QueryFunctions.Proofs.Registry.Stages
import QueryFunctions.Proofs.Termination.Calls

/-! The contract of a compilation that comes to an end. Each function is compiled once, from code as it was
built to tame code, and while functions are compiled ever more calls are left as they are for good: those
of functions that turned out to be recursive, and of compiled ones that are not to be expanded. -/
namespace QueryFunctions

open Contract

/-- A node as built: no closure is compiled yet, and constants depend on no function. -/
structure Kind.Built (origins : Finset Origin) (n : Nat) (k : Kind) : Prop where
  fits : k.Fits ⟨origins, fun _ => True⟩ [] n
  value : ∀ v, k = .value v → v.Tame ⟨origins, fun _ => False⟩ n
  raw : ∀ origin captures compiled, k = .closure origin captures compiled → compiled = false

def Expr.Built (origins : Finset Origin) (n : Nat) (e : Expr) : Prop := ∀ k ∈ e.kinds, k.Built origins n

namespace Expr.Built

variable {origins : Finset Origin} {n m : Nat} {e : Expr}

theorem part (h : e.Built origins n) {p : Expr} (mem : p ∈ e.parts) : p.Built origins n :=
  fun k hk => h k (kinds_subset_of_mem_parts mem hk)

theorem kind (h : e.Built origins n) : e.kind.Built origins n := h _ (mem_kinds_iff.2 (.inl rfl))

theorem later (h : e.Built origins n) (le : n ≤ m) : e.Built origins m := fun k mem =>
  { h k mem with
    fits := (h k mem).fits.mono (.refl _) (List.Subset.refl _) le
    value := fun v same => ((h k mem).value v same).mono (.refl _) le }

end Expr.Built

/-- Calls of the function are not expanded, now or later. -/
def Entry.Closed (o : Options) (e : Entry) : Prop :=
  e.recursive = true ∨ e.stage = .compiled ∧ e.inlinable o = false

theorem Entry.Closed.not_inlinable {o : Options} {e : Entry} (h : e.Closed o) : e.inlinable o = false := by
  rcases h with recursive | ⟨-, no⟩
  · simp [inlinable, recursive]
  · exact no

namespace Registry

variable {o : Options} {r : Registry} {id : FuncId} {e : Entry} {f : Entry → Entry}

def terms (r : Registry) (o : Options) (origins : Finset Origin) : Terms where
  origins
  closed id := ∃ e, r.find? id = some e ∧ e.Closed o

theorem upheld_terms (r : Registry) (o : Options) (origins : Finset Origin) :
    (r.terms o origins).Upheld r o := fun _ ⟨e, found, closed⟩ => ⟨e, found, closed.not_inlinable⟩

/-- The function has been compiled, or it is known to be reached from its own body. -/
def Prepared (r : Registry) (id : FuncId) : Prop :=
  ∃ e, r.find? id = some e ∧ (e.stage = .compiled ∨ e.recursive = true)

def pending (r : Registry) : Nat := r.entries.countP fun e => e.stage = .pending

theorem pending_update (found : r.find? id = some e) :
    (r.update id f).pending + (if e.stage = .pending then 1 else 0) =
      r.pending + if (f e).stage = .pending then 1 else 0 := by
  have counted : ∀ (es : List Entry) (i : Nat), es[i]? = some e →
      (es.modify i f).countP (fun e => e.stage = .pending) + (if e.stage = .pending then 1 else 0) =
        es.countP (fun e => e.stage = .pending) + if (f e).stage = .pending then 1 else 0 := by
    intro es
    induction es with
    | nil => exact nofun
    | cons x es ih =>
      intro i here
      cases i with
      | zero =>
        cases here
        simp only [List.modify_zero_cons, List.countP_cons, decide_eq_true_eq]
        omega
      | succ i =>
        have rest := ih i here
        simp only [List.modify_succ_cons, List.countP_cons, decide_eq_true_eq]
        omega
  exact counted r.entries id.index found

end Registry

namespace CompileState

variable {o : Options} {origins : Finset Origin} {depth : Nat} {busy : FuncId → Prop}

/-- Bodies are code as built until they are compiled, and tame from then on. The functions `busy` are in
the making, and `depth` bounds how many more may be begun inside of each other. -/
structure Tame (o : Options) (origins : Finset Origin) (depth : Nat) (busy : FuncId → Prop)
    (s : CompileState) : Prop where
  built : ∀ id e body, s.registry.find? id = some e → e.stage = .pending → e.body = some body →
    body.Built origins s.supply.nextVar
  tame : ∀ id e body, s.registry.find? id = some e → e.stage ≠ .pending → e.body = some body →
    body.Tame (s.registry.terms o origins) [] s.supply.nextVar
  pending : s.registry.pending < depth
  busy : ∀ id, busy id → ∃ e, s.registry.find? id = some e ∧ e.stage = .compiling

/-- Nothing is to be begun again, and closed functions stay closed. -/
structure Narrows (o : Options) (s t : CompileState) : Prop where
  supply : s.supply.nextVar ≤ t.supply.nextVar
  pending : t.registry.pending ≤ s.registry.pending
  closed : ∀ id e, s.registry.find? id = some e → e.Closed o →
    ∃ e', t.registry.find? id = some e' ∧ e'.Closed o

namespace Narrows

variable {s t u : CompileState}

theorem refl (s : CompileState) : Narrows o s s :=
  ⟨Nat.le_refl _, Nat.le_refl _, fun _ e found closed => ⟨e, found, closed⟩⟩

theorem trans (first : Narrows o s t) (second : Narrows o t u) : Narrows o s u where
  supply := Nat.le_trans first.supply second.supply
  pending := Nat.le_trans second.pending first.pending
  closed id e found closed := by
    obtain ⟨e', found', closed'⟩ := first.closed id e found closed
    exact second.closed id e' found' closed'

theorem terms (h : Narrows o s t) (origins : Finset Origin) :
    (s.registry.terms o origins).Le (t.registry.terms o origins) :=
  ⟨rfl, fun id ⟨e, found, closed⟩ => h.closed id e found closed⟩

end Narrows

end CompileState

/-- Tame by what the registry says, wherever it is called from. -/
def Expr.TameAt (o : Options) (origins : Finset Origin) (s : CompileState) (e : Expr) : Prop :=
  e.Tame (s.registry.terms o origins) [] s.supply.nextVar

def tameContract (o : Options) (origins : Finset Origin) (depth : Nat) (busy : FuncId → Prop) :
    Contract CompileState where
  holds := CompileState.Tame o origins depth busy
  leads := CompileState.Narrows o
  refl := .refl
  trans := .trans
  raises _ := True
  faults f := f ≠ .budget

variable {ι α : Type} {o : Options} {origins : Finset Origin} {depth depth' : Nat}
  {busy busy' : FuncId → Prop} {s t : CompileState} {e : Expr}

theorem Expr.TameAt.later (h : e.TameAt o origins s) (hst : CompileState.Narrows o s t) :
    e.TameAt o origins t := h.mono (hst.terms origins) (List.Subset.refl _) hst.supply

theorem CompileState.Tame.later (hs : s.Tame o origins depth busy) (registry : t.registry = s.registry)
    (le : s.supply.nextVar ≤ t.supply.nextVar) :
    t.Tame o origins depth busy ∧ CompileState.Narrows o s t := by
  refine ⟨⟨fun id e body found pending present => ?_, fun id e body found begun present => ?_, ?_, ?_⟩,
    le, ?_, ?_⟩
  · rw [registry] at found
    exact (hs.built id e body found pending present).later le
  · rw [registry] at found ⊢
    exact (hs.tame id e body found begun present).later le
  · rw [registry]
    exact hs.pending
  · rw [registry]
    exact hs.busy
  · rw [registry]
  · rw [registry]
    exact fun _ e found closed => ⟨e, found, closed⟩

namespace Contract.Settles

variable {act : ι → Nat → Compile α} {post : α → CompileState → Prop}

theorem simplified (hs : s.Tame o origins depth busy)
    (h : (simplifyContract s.registry).Settles o s act post) :
    (tameContract o origins depth busy).Settles o s act fun a t =>
      post a t ∧ t.registry = s.registry := by
  refine h.through id (fun _ _ => rfl) fun p admits => ?_
  obtain ⟨f | err | a, t⟩ := p
  · obtain ⟨⟨le, registry⟩, met⟩ := admits
    exact ⟨(hs.later registry le).2, met⟩
  · obtain ⟨-, ⟨le, registry⟩, -⟩ := admits
    exact ⟨(hs.later registry le).1, (hs.later registry le).2, trivial⟩
  · obtain ⟨-, ⟨le, registry⟩, ha⟩ := admits
    exact ⟨(hs.later registry le).1, (hs.later registry le).2, ha, registry⟩

theorem outward (h : (tameContract o origins depth' busy').Settles o s act post)
    (left : s.registry.pending < depth) (more : ∀ id, busy id → busy' id) :
    (tameContract o origins depth busy).Settles o s act fun a t =>
      post a t ∧ ∀ id, busy' id → ∃ e, t.registry.find? id = some e ∧ e.stage = .compiling := by
  have leave : ∀ {t : CompileState}, t.Tame o origins depth' busy' → CompileState.Narrows o s t →
      t.Tame o origins depth busy := fun ht hst =>
    ⟨ht.built, ht.tame, Nat.lt_of_le_of_lt hst.pending left, fun id mem => ht.busy id (more id mem)⟩
  refine h.through id (fun _ _ => rfl) fun p admits => ?_
  obtain ⟨f | err | a, t⟩ := p
  · exact admits
  · exact ⟨leave admits.1 admits.2.1, admits.2.1, trivial⟩
  · exact ⟨leave admits.1 admits.2.1, admits.2.1, admits.2.2, admits.1.busy⟩

end Contract.Settles

end QueryFunctions
