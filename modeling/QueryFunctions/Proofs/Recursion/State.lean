import QueryFunctions.Proofs.Form.Functions
import QueryFunctions.Proofs.Recursion.Simplify
import QueryFunctions.Proofs.Termination.State

/-! The call graph while functions are compiled. Code names a function only once that is prepared: its
body is compiled, or it was reached again while in the making and is known to be recursive. So from a
compiled function the callees that are not recursive lead to functions that were compiled ever earlier,
and there is no way back. -/
namespace QueryFunctions

open Relation

/-- Code as it was built: no closure in it is compiled, and its constants name no functions. -/
structure Expr.Untouched (e : Expr) : Prop where
  value : ∀ v, .value v ∈ e.nodes → v.Within fun _ => False
  closure : ∀ c, .closure c ∈ e.nodes → c.compiled = false
  literal : ∀ site c, .literal site c ∈ e.nodes → c.compiled = false

theorem Expr.Untouched.part {e p : Expr} (h : e.Untouched) (mem : p ∈ e.parts) : p.Untouched :=
  have inside := nodes_subset_of_mem_parts mem
  ⟨fun v among => h.value v (inside among), fun c among => h.closure c (inside among),
    fun site c among => h.literal site c (inside among)⟩

theorem Expr.includes_of_mem_nodes {e x : Expr} (mem : x ∈ e.nodes) : e.Includes x := by
  have inherited : ∀ y : Expr, (∀ z, y.Includes z → e.Includes z) → ∀ p ∈ y.parts,
      ∀ z, p.Includes z → e.Includes z := fun y h p part z includes => h z (.part part includes)
  exact of_mem_nodes inherited e (fun _ includes => includes) mem x .self

theorem Expr.names_of_uses {e : Expr} {id : FuncId} (h : e.uses id = true) : e.Names id := by
  rw [uses, anyNode_eq, List.any_eq_true] at h
  obtain ⟨x, mem, use⟩ := h
  exact ⟨x, includes_of_mem_nodes mem, use⟩

namespace Registry

variable {r r' : Registry} {id callee : FuncId}

def Compiled (r : Registry) (id : FuncId) : Prop := ∃ e, r.find? id = some e ∧ e.stage = .compiled

/-- The function was reached again while it was in the making, or names itself. -/
def Recursive (r : Registry) (id : FuncId) : Prop := ∃ e, r.find? id = some e ∧ e.recursive = true

/-- The body of the one function calls or names the other. -/
def Uses (r : Registry) (id callee : FuncId) : Prop :=
  ∃ e body, r.find? id = some e ∧ e.body = some body ∧ body.Names callee

/-- The compiled body of the one calls or names the other. -/
def Links (r : Registry) (id callee : FuncId) : Prop := r.Compiled id ∧ r.Uses id callee

/-- From a compiled function down to one that it uses, as long as that is not recursive. -/
def Descends (r : Registry) (callee id : FuncId) : Prop := r.Links id callee ∧ ¬r.Recursive callee

/-- Compiled functions stay as they are, and recursive ones recursive. -/
def Advances (r r' : Registry) : Prop := ∀ id e, r.find? id = some e →
  ∃ e', r'.find? id = some e' ∧ (e.stage = .compiled → e' = e) ∧
    (e.recursive = true → e'.recursive = true)

namespace Advances

theorem refl (r : Registry) : r.Advances r := fun _ e found => ⟨e, found, fun _ => rfl, id⟩

theorem trans {r'' : Registry} (first : r.Advances r') (second : r'.Advances r'') :
    r.Advances r'' := by
  intro id e found
  obtain ⟨e', found', kept, recursive⟩ := first id e found
  obtain ⟨e'', found'', kept', recursive'⟩ := second id e' found'
  refine ⟨e'', found'', fun compiled => ?_, recursive' ∘ recursive⟩
  cases kept compiled
  exact kept' compiled

theorem recursive (h : r.Advances r') (recursive : r.Recursive id) : r'.Recursive id := by
  obtain ⟨e, found, mark⟩ := recursive
  obtain ⟨e', found', -, still⟩ := h id e found
  exact ⟨e', found', still mark⟩

theorem compiled (h : r.Advances r') {e : Entry} (found : r.find? id = some e)
    (compiled : e.stage = .compiled) : r'.find? id = some e := by
  obtain ⟨e', found', kept, -⟩ := h id e found
  rwa [kept compiled] at found'

theorem prepared (h : r.Advances r') (prepared : r.Prepared id) : r'.Prepared id := by
  obtain ⟨e, found, compiled | recursive⟩ := prepared
  · exact ⟨e, h.compiled found compiled, .inl compiled⟩
  · obtain ⟨e', found', mark⟩ := h.recursive ⟨e, found, recursive⟩
    exact ⟨e', found', .inr mark⟩

theorem withholds (h : r.Advances r') {kept : FuncId → Bool} {o : Options}
    (withholds : r'.Withholds kept o) : r.Withholds kept o := by
  intro id e guarded found
  by_contra expanded
  have inlinable : e.inlinable o = true := by simpa using expanded
  have compiled : e.stage = .compiled := by
    simp only [Entry.inlinable, Bool.and_eq_true, decide_eq_true_eq] at inlinable
    exact inlinable.1.1.1.1.1
  exact expanded (withholds id e guarded (h.compiled found compiled))

end Advances

theorem Prepared.compiled (h : r.Prepared id) (plain : ¬r.Recursive id) : r.Compiled id := by
  obtain ⟨e, found, compiled | recursive⟩ := h
  · exact ⟨e, found, compiled⟩
  · exact absurd ⟨e, found, recursive⟩ plain

end Registry

variable {D : FuncId → FuncId → Prop} {kept : FuncId → Bool} {o : Options} {busy : FuncId → Prop}
  {R : FuncId → Prop} {s t : CompileState} {id : FuncId}

/-- What is known of a function by its entry, where `D` are the calls as declared. -/
structure Entry.Cut (D : FuncId → FuncId → Prop) (r : Registry) (id : FuncId) (e : Entry) : Prop where
  pending : e.stage = .pending → ∀ body, e.body = some body → body.Untouched ∧ body.Within (D id)
  compiled : e.stage = .compiled → ∀ body, e.body = some body →
    body.Within fun callee => TransGen D id callee ∧ r.Prepared callee
  absent : e.stage ≠ .pending → e.stage ≠ .compiled → e.body = none
  recursive : e.recursive = true → TransGen D id id
  grounded : e.stage = .compiled → Acc r.Descends id

def Registry.Cut (D : FuncId → FuncId → Prop) (r : Registry) : Prop :=
  ∀ id e, r.find? id = some e → e.Cut D r id

theorem Registry.Cut.grounded {r r' : Registry} (cut : r.Cut D) (advances : r.Advances r')
    (compiled : r.Compiled id) : Acc r'.Descends id := by
  obtain ⟨e, found, done⟩ := compiled
  have grounded := (cut id e found).grounded done
  induction grounded generalizing e with
  | intro id _ ih =>
    refine .intro id fun callee ⟨⟨_, e', body, found', present, names⟩, plain⟩ => ?_
    cases (advances.compiled found done).symm.trans found'
    have plain' : ¬r.Recursive callee := fun recursive => plain (advances.recursive recursive)
    have prepared := ((cut id e found).compiled done body present callee names).2
    obtain ⟨e', found', done'⟩ := prepared.compiled plain'
    exact ih callee ⟨⟨⟨e, found, done⟩, e, body, found, present, names⟩, plain'⟩ e' found' done'

theorem Entry.Cut.later {r r' : Registry} {e : Entry} (h : e.Cut D r id) (cut : r.Cut D)
    (advances : r.Advances r') (found : r.find? id = some e) : e.Cut D r' id where
  pending := h.pending
  compiled done body present :=
    (h.compiled done body present).mono fun _ ⟨path, prepared⟩ => ⟨path, advances.prepared prepared⟩
  absent := h.absent
  recursive := h.recursive
  grounded done := cut.grounded advances ⟨e, found, done⟩

structure CompileState.Cut (D : FuncId → FuncId → Prop) (busy : FuncId → Prop) (s : CompileState) :
    Prop where
  registry : s.registry.Cut D
  busy : ∀ id e, s.registry.find? id = some e → (e.stage = .compiling ↔ busy id)

def cutPact (D : FuncId → FuncId → Prop) (kept : FuncId → Bool) (o : Options) (busy : FuncId → Prop) :
    Pact CompileState where
  holds := CompileState.Cut D busy
  leads s t := s.registry.Advances t.registry
  refl s := .refl s.registry
  trans := .trans
  near s := s.registry.Withholds kept o
  back advances near := advances.withholds near

/-- The functions that code may name where `busy` are in the making: all of these lead there. -/
structure Ahead (D : FuncId → FuncId → Prop) (busy R : FuncId → Prop) : Prop where
  closed : ∀ id callee, R id → D id callee → R callee
  reached : ∀ id callee, busy id → R callee → TransGen D id callee

theorem Ahead.closed_transGen (ahead : Ahead D busy R) {callee : FuncId} (h : R id)
    (path : TransGen D id callee) : R callee := by
  induction path with
  | single step => exact ahead.closed _ _ h step
  | tail _ step ih => exact ahead.closed _ _ ih step

theorem Ahead.inside (ahead : Ahead D busy R) (h : R id) :
    Ahead D (fun x => x = id ∨ busy x) (TransGen D id) where
  closed _ _ path step := path.tail step
  reached x callee going path := by
    rcases going with rfl | going
    · exact path
    · exact (ahead.reached x id going h).trans path

theorem Ahead.idle : Ahead D (fun _ => False) fun _ => True :=
  ⟨fun _ _ _ _ => trivial, fun _ _ => False.elim⟩

/-- Code that names only functions that are prepared, among those that it may name. -/
def Expr.Grounded (R : FuncId → Prop) (r : Registry) (e : Expr) : Prop :=
  e.Within fun id => R id ∧ r.Prepared id

theorem Expr.Grounded.later {r r' : Registry} {e : Expr} (h : e.Grounded R r)
    (advances : r.Advances r') : e.Grounded R r' :=
  h.mono fun _ ⟨ahead, prepared⟩ => ⟨ahead, advances.prepared prepared⟩

theorem CompileState.Cut.inlines (hs : s.Cut D busy) (ahead : Ahead D busy R) :
    s.registry.Inlines (fun id => R id ∧ s.registry.Prepared id) o := by
  intro id e body ⟨here, _⟩ found inlinable present
  have compiled : e.stage = .compiled := by
    simp only [Entry.inlinable, Bool.and_eq_true, decide_eq_true_eq] at inlinable
    exact inlinable.1.1.1.1.1
  exact ((hs.registry id e found).compiled compiled body present).mono fun callee ⟨path, prepared⟩ =>
    ⟨ahead.closed_transGen here path, prepared⟩

theorem CompileState.Cut.of_registry (hs : s.Cut D busy) (same : t.registry = s.registry) :
    t.Cut D busy ∧ s.registry.Advances t.registry :=
  ⟨⟨same ▸ hs.registry, same ▸ hs.busy⟩, same ▸ .refl _⟩

namespace Compile

theorem simplified_cuts (hs : s.Cut D busy) (ahead : Ahead D busy R)
    (alarm : Compile Expr → Compile Expr) (budget : Nat) {e : Expr} (he : e.Grounded R s.registry) :
    (cutPact D kept o busy).Keeps o s (e.simplify budget) (e.simplifyGuarded kept alarm budget)
      fun e' t => e'.Grounded R t.registry := by
  refine (Expr.simplify_withins (hs.inlines ahead) alarm budget e s rfl he).weaken
    (fun t same near => ?_) fun t same _ => ?_
  · have near : t.registry.Withholds kept o := near
    exact same ▸ near
  · obtain ⟨ht, hst⟩ := hs.of_registry same
    exact ⟨ht, hst, fun e' (he' : e'.Grounded R s.registry) => he'.later hst⟩

end Compile

end QueryFunctions
