import QueryFunctions.Proofs.Law.Basic
import QueryFunctions.Proofs.Scope.Adoption
import QueryFunctions.Registry.Check

/-! The law of a compilation. Bodies in the registry meet the standard, raw or compiled; the scope
at hand gives out only slots that the code at hand may write to; functions are compiled once. -/
namespace QueryFunctions

namespace Allowance

def inside (a : Allowance) (d : Standard) (scope : Scope) : Allowance :=
  { a with binds := fun id => d.bound → (scope.find? id).isSome = true }

/-- The compiler may put any function body that is not updating where `a` is the allowance. -/
structure Open (a : Allowance) (d : Standard) : Prop where
  updates : d.annotated ∨ a.updates
  draws : a.draws
  slots : d.bound ∨ ∀ slot, a.slot slot
  unflagged : ¬a.flagged

theorem inside_le (a : Allowance) (d : Standard) {s t : Scope}
    (grows : ∀ id, (s.find? id).isSome = true → (t.find? id).isSome = true) :
    a.inside d s ≤ a.inside d t := ⟨id, id, id, fun hb demanded => grows _ (hb demanded), id⟩

theorem open_ofBody (d : Standard) (updating : Bool) (scope : Scope) :
    (ofBody d updating scope).Open d where
  updates := (Classical.em d.annotated).imp id fun unannotated h => absurd h unannotated
  draws := trivial
  slots := .inr fun _ => trivial
  unflagged := id

end Allowance

structure Entry.Meets (d : Standard) (id : FuncId) (e : Entry) : Prop where
  updating : e.annotations.updating = d.isUpdating id
  raw : e.stage = .pending → ∀ body, e.body = some body →
    body.Meets d false (.ofFunction d id e.scope)
  compiled : e.stage ≠ .pending → ∀ body, e.body = some body →
    body.Meets d true (.ofFunction d id e.scope)
  /-- Only compiled bodies are kept, and their non-determinism is on record. -/
  flags : e.stage ≠ .pending → ∀ body, e.body = some body →
    e.stage = .compiled ∧ (body.has .ndt = true → e.flags.ndt = true)

/-- How the entry of a function may change: it is compiled once, and what the registry says of its
declaration stays. -/
structure Entry.Leads (e e' : Entry) : Prop where
  calls : e'.calls = e.calls
  defined : e'.defined = e.defined
  settled : e.stage ≠ .pending → e'.stage ≠ .pending
  compiling : e.stage = .compiling → e'.stage = .compiling

theorem Entry.Leads.refl (e : Entry) : e.Leads e := ⟨rfl, rfl, id, id⟩

theorem Entry.Leads.trans {e f g : Entry} (first : e.Leads f) (second : f.Leads g) : e.Leads g where
  calls := second.calls.trans first.calls
  defined := second.defined.trans first.defined
  settled h := second.settled (first.settled h)
  compiling h := second.compiling (first.compiling h)

namespace CompileState

structure Meets (d : Standard) (a : Allowance) (s : CompileState) : Prop where
  functions : ∀ id e, s.registry.find? id = some e → e.Meets d id
  free : ∀ slot, ¬s.scope.Taken slot → a.slot slot
  fresh : s.scope.FreshFor s.supply ∨ ∀ slot, a.slot slot

/-- Scopes and registries only grow. -/
structure Leads (s t : CompileState) : Prop where
  scope : ∀ id, (s.scope.find? id).isSome = true → (t.scope.find? id).isSome = true
  supply : s.supply.nextVar ≤ t.supply.nextVar
  functions : ∀ id e, s.registry.find? id = some e →
    ∃ e', t.registry.find? id = some e' ∧ e.Leads e'
  size : t.registry.entries.length = s.registry.entries.length

namespace Leads

variable {s t u : CompileState}

theorem refl (s : CompileState) : Leads s s where
  scope _ := id
  supply := Nat.le_refl _
  functions _ e found := ⟨e, found, .refl e⟩
  size := rfl

theorem trans (first : Leads s t) (second : Leads t u) : Leads s u where
  scope id present := second.scope id (first.scope id present)
  supply := Nat.le_trans first.supply second.supply
  functions id e found := by
    obtain ⟨e', found', leads⟩ := first.functions id e found
    obtain ⟨e'', found'', leads'⟩ := second.functions id e' found'
    exact ⟨e'', found'', leads.trans leads'⟩
  size := second.size.trans first.size

variable {d : Standard} {compiled : Bool} {a : Allowance}

theorem meets (h : Leads s t) {e : Expr} (he : e.Meets d compiled (a.inside d s.scope)) :
    e.Meets d compiled (a.inside d t.scope) := he.mono (a.inside_le d h.scope)

theorem listMeets (h : Leads s t) {es : List Expr}
    (hes : QueryFunctions.listMeets d compiled (a.inside d s.scope) es) :
    QueryFunctions.listMeets d compiled (a.inside d t.scope) es :=
  listMeets_mono (a.inside_le d h.scope) es hes

theorem suppliesMeet (h : Leads s t) {es : List (VarId × Expr)}
    (hes : QueryFunctions.suppliesMeet d compiled (a.inside d s.scope) es) :
    QueryFunctions.suppliesMeet d compiled (a.inside d t.scope) es :=
  suppliesMeet_mono (a.inside_le d h.scope) es hes

theorem closureMeets (h : Leads s t) {c : Closure} {updating : Bool}
    (hc : c.Meets d compiled (a.inside d s.scope) updating) :
    c.Meets d compiled (a.inside d t.scope) updating := hc.mono (a.inside_le d h.scope)

end Leads

end CompileState

def compileLaw (d : Standard) (a : Allowance) : Law CompileState where
  holds := CompileState.Meets d a
  leads := CompileState.Leads
  refl := CompileState.Leads.refl
  trans := CompileState.Leads.trans

/-- Started in `s`, the computation keeps the law and makes compiled code for the scope at hand. -/
def Compile.Makes (d : Standard) (a : Allowance) (o : Options) (s : CompileState)
    (act : Compile Expr) : Prop :=
  (compileLaw d a).Keeps o s act fun e t => e.Meets d true (a.inside d t.scope)

namespace Compile

variable {d : Standard} {a b : Allowance} {o : Options} {s : CompileState} {α : Type}

theorem draw_keeps (hs : s.Meets d a) {act : Supplied α} {post : α → Prop} (drawn : Yields act post) :
    (compileLaw d a).Keeps o s (Compile.draw act) fun x _ => post x := by
  intro result t run
  cases h : act s.supply with
  | error f =>
    simp only [Compile.draw, h] at run
    cases run
  | ok p =>
    simp only [Compile.draw, h] at run
    cases run
    obtain ⟨grows, post⟩ := drawn s.supply p.1 p.2 h
    refine ⟨⟨hs.functions, hs.free, ?_⟩, { CompileState.Leads.refl s with supply := grows }, ?_⟩
    · exact hs.fresh.imp (fun fresh q hq => Nat.lt_of_lt_of_le (fresh q hq) grows) id
    · rintro _ ⟨⟩
      exact post

theorem entryOf_keeps (hs : s.Meets d a) (id : FuncId) :
    (compileLaw d a).Keeps o s (entryOf id) fun e t =>
      t.registry.find? id = some e ∧ e.Meets d id := by
  refine Law.Keeps.bind (Law.Keeps.get hs) fun _ t _ _ same => ?_
  obtain ⟨rfl, rfl⟩ := same
  split
  · rename_i e found
    exact Law.Keeps.pure hs ⟨found, hs.functions id e found⟩
  · exact Law.Keeps.of_fault rfl

theorem ofFaulty_keeps (hs : s.Meets d a) {result : Except Fault α} :
    (compileLaw d a).Keeps o s (ofFaulty result) fun x t => result = .ok x ∧ t = s := by
  cases result with
  | ok x => exact Law.Keeps.pure hs ⟨rfl, rfl⟩
  | error f => exact Law.Keeps.of_fault rfl

theorem deferred_keeps (hs : s.Meets d a) {result : Except QueryError Expr} {compiled : Bool}
    (he : ∀ e, result = .ok e → e.Meets d compiled b) :
    (compileLaw d a).Keeps o s (deferred result) fun e _ => e.Meets d compiled b := by
  unfold deferred
  split
  · exact Law.Keeps.pure hs (he _ rfl)
  · split
    · exact Law.Keeps.throw hs
    · exact Law.Keeps.pure hs (by simp only [Expr.Meets])

theorem modifyScope_keeps (hs : s.Meets d a) {f : Scope → Scope}
    (layout : (f s.scope).layout = s.scope.layout) (slots : (f s.scope).slots = s.scope.slots) :
    (compileLaw d a).Keeps o s (modifyScope f) fun _ _ => True := by
  refine Law.Keeps.of_eq rfl ⟨hs.functions, fun slot free => hs.free slot ?_, ?_⟩
    { CompileState.Leads.refl s with scope := fun id present => ?_ } trivial
  · unfold Scope.Taken at free ⊢
    rwa [← slots]
  · exact hs.fresh.imp (fun fresh p hp => fresh p (layout ▸ hp)) id
  · rw [Scope.isSome_find?_iff] at present ⊢
    rwa [layout]

/-- The body of another function is made in its own scope, and that scope is given back with what
became of it. -/
theorem inScope_keeps (hs : s.Meets d a) {updating : Bool} {inner : Scope} {act : Compile Expr}
    (kept : ∀ t : CompileState, t.Meets d (.ofBody d updating inner) → t.scope = inner →
      Makes d (.ofBody d updating inner) o t act) :
    (compileLaw d a).Keeps o s (inScope inner act) fun p _ =>
      ∀ e, p.1 = .ok e → e.Meets d true (.ofBody d updating p.2) := by
  intro result u run
  have entered : CompileState.Meets d (.ofBody d updating inner) { s with scope := inner } :=
    ⟨hs.functions, fun _ _ => trivial, .inr fun _ => trivial⟩
  cases h : act o { s with scope := inner } with
  | mk ended t =>
    simp only [inScope, h] at run
    cases ended with
    | error f => cases run
    | ok ended =>
      cases run
      obtain ⟨ht, hst, value⟩ := kept _ entered rfl _ _ h
      refine ⟨⟨ht.functions, hs.free, ?_⟩, ⟨fun _ => id, hst.supply, hst.functions, hst.size⟩, ?_⟩
      · exact hs.fresh.imp (fun fresh q hq => Nat.lt_of_lt_of_le (fresh q hq) hst.supply) id
      · rintro _ ⟨⟩
        exact value

end Compile

end QueryFunctions
