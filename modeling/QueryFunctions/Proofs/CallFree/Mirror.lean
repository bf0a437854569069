import QueryFunctions.Proofs.CallFree.Basic
import QueryFunctions.Proofs.Law.Simulation
import QueryFunctions.Proofs.Run.Brackets
import QueryFunctions.Run.Evaluation

/-! Code that refines other code. Two runs are compared that differ in what they keep in the slots of
their frames: a table tells where the second run has the values that the first has in its slots.
Errors of the first run need not be met by the second. -/
namespace QueryFunctions

/-- Where a run has a value. -/
inductive Standin where
  | value (v : Value)
  | cell (slot : Nat)

def Standin.read (s : RunState) : Standin → Option Value
  | .value v => some v
  | .cell slot => s.stack[s.base + slot]?

/-- Slots of one run, with what stands for them in another. -/
abbrev Table := List (Nat × Standin)

/-- Variables in scope have the same slots in both runs. -/
def Live.table (live : Live) : Table := live.map fun p => (p.2, .cell p.2)

inductive Expr.Atom (live : Live) : Expr → Standin → Prop
  | value (v : Value) : Atom live (.value v) (.value v)
  | var {ref : VarRef} : (ref.id, ref.slot) ∈ live → Atom live (.var ref) (.cell ref.slot)

/-- States that differ only in slots of the frame, where the table holds. -/
structure RunState.Mirrors (table : Table) (s t : RunState) : Prop where
  supply : t.supply = s.supply
  base : t.base = s.base
  depth : t.depth = s.depth
  focus : t.focus = s.focus
  updates : t.updates = s.updates
  random : t.random = s.random
  host : t.host = s.host
  size : t.stack.size = s.stack.size
  below : ∀ i < s.base, t.stack[i]? = s.stack[i]?
  cells : ∀ p ∈ table, p.2.read t = s.stack[s.base + p.1]?

namespace RunState.Mirrors

variable {table own : Table} {s t u : RunState} {slot : Nat} {v : Value} {a : Standin}

theorem mono (h : s.Mirrors own t) (sub : ∀ p ∈ table, p ∈ own) : s.Mirrors table t :=
  { h with cells := fun p mem => h.cells p (sub p mem) }

theorem refl (s : RunState) (same : ∀ p ∈ own, p.2 = .cell p.1) : s.Mirrors own s :=
  ⟨rfl, rfl, rfl, rfl, rfl, rfl, rfl, rfl, fun _ _ => rfl, fun p mem => by rw [same p mem]; rfl⟩

/-- Slots that stand for others are among those that the second pair of states has in common. -/
theorem trans (first : s.Mirrors table t) (second : t.Mirrors own u)
    (kept : ∀ p ∈ table, ∀ slot, p.2 = .cell slot → (slot, .cell slot) ∈ own) : s.Mirrors table u where
  supply := second.supply.trans first.supply
  base := second.base.trans first.base
  depth := second.depth.trans first.depth
  focus := second.focus.trans first.focus
  updates := second.updates.trans first.updates
  random := second.random.trans first.random
  host := second.host.trans first.host
  size := second.size.trans first.size
  below i lt := (second.below i (by rw [first.base]; exact lt)).trans (first.below i lt)
  cells := by
    rintro ⟨source, value | target⟩ mem
    · exact first.cells _ mem
    · exact (second.cells _ (kept _ mem target rfl)).trans (first.cells _ mem)

theorem set_left (h : s.Mirrors table t) (fresh : ∀ p ∈ table, p.1 ≠ slot)
    (inside : s.base + slot < s.stack.size) (held : a.read t = some v) :
    { s with stack := s.stack.setIfInBounds (s.base + slot) v }.Mirrors ((slot, a) :: table) t where
  supply := h.supply
  base := h.base
  depth := h.depth
  focus := h.focus
  updates := h.updates
  random := h.random
  host := h.host
  size := by rw [h.size, Array.size_setIfInBounds]
  below i lt := by
    rw [h.below i lt]
    change i < s.base at lt
    rw [Array.getElem?_setIfInBounds_ne (by omega)]
  cells p mem := by
    rcases List.mem_cons.1 mem with rfl | mem
    · rw [held]
      exact (Array.getElem?_setIfInBounds_self_of_lt inside).symm
    · rw [h.cells p mem]
      have apart := fresh p mem
      exact (Array.getElem?_setIfInBounds_ne (by omega)).symm

theorem set (h : s.Mirrors table t) (fresh : ∀ p ∈ table, p.1 ≠ slot ∧ p.2 ≠ .cell slot)
    (inside : s.base + slot < s.stack.size) :
    { s with stack := s.stack.setIfInBounds (s.base + slot) v }.Mirrors ((slot, .cell slot) :: table)
      { t with stack := t.stack.setIfInBounds (t.base + slot) v } := by
  have inside' : t.base + slot < t.stack.size := by rw [h.base, h.size]; exact inside
  have written : s.Mirrors table { t with stack := t.stack.setIfInBounds (t.base + slot) v } := by
    refine { h with size := ?_, below := fun i lt => ?_, cells := ?_ }
    · exact Array.size_setIfInBounds.trans h.size
    · rw [← h.below i lt]
      exact Array.getElem?_setIfInBounds_ne (by rw [h.base]; omega)
    · rintro ⟨source, value | target⟩ mem
      · exact h.cells _ mem
      · have apart : target ≠ slot := fun same => (fresh _ mem).2 (congrArg Standin.cell same)
        rw [← h.cells _ mem]
        exact Array.getElem?_setIfInBounds_ne fun same => apart (Nat.add_left_cancel same).symm
  exact written.set_left (fun p mem => (fresh p mem).1) inside
    (Array.getElem?_setIfInBounds_self_of_lt inside')

end RunState.Mirrors

/-- Runs with the same setting whose frames mirror one another. -/
def mirroring (table : Table) : Likeness RunSetting RunState where
  settings r r' := r' = r
  states := RunState.Mirrors table
  excused _ := True

/-- Whenever the first expression gives a value the second gives the same, with the same effects. -/
def Expr.Refined (table : Table) (e e' : Expr) : Prop :=
  ∀ call call', (mirroring table).Follows (· = ·) (e.evaluate call) (e'.evaluate call')

namespace Expr.Refined

variable {table own : Table} {e e' e'' lhs lhs' rhs rhs' cond cond' yes yes' no no' : Expr}
  {es es' : List Expr} {live : Live} {a : Standin} {slot : Nat}

theorem of_values (h : ∀ (call call' : Caller) r s t v u, s.Mirrors table t →
      e.evaluate call r s = (.ok (.ok v), u) →
      ∃ w, e'.evaluate call' r t = (.ok (.ok v), w) ∧ u.Mirrors table w) : e.Refined table e' := by
  rintro call call' _ r s t rfl mirrors result u run free
  cases result with
  | error e => exact absurd trivial (free e rfl)
  | ok v =>
    obtain ⟨w, run', mirrors'⟩ := h call call' r s t v u mirrors run
    exact ⟨_, w, run', .ok rfl, mirrors'⟩

theorem values (h : e.Refined table e') (call call' : Caller) {r : RunSetting} {s t u : RunState}
    {v : Value} (mirrors : s.Mirrors table t) (run : e.evaluate call r s = (.ok (.ok v), u)) :
    ∃ w, e'.evaluate call' r t = (.ok (.ok v), w) ∧ u.Mirrors table w := by
  obtain ⟨_, w, run', ⟨rfl⟩, mirrors'⟩ := h call call' r r s t rfl mirrors _ u run (by rintro _ ⟨⟩)
  exact ⟨w, run', mirrors'⟩

theorem trans (first : e.Refined table e') (second : e'.Refined own e'')
    (same : ∀ p ∈ own, p.2 = .cell p.1)
    (kept : ∀ p ∈ table, ∀ slot, p.2 = .cell slot → (slot, .cell slot) ∈ own) :
    e.Refined table e'' := by
  refine of_values fun call call' r s t v u mirrors run => ?_
  obtain ⟨w, run', mirrors'⟩ := first.values call call mirrors run
  obtain ⟨x, run'', mirrors''⟩ := second.values call call' (.refl t same) run'
  exact ⟨x, run'', mirrors'.trans mirrors'' kept⟩

theorem congr (h : e.Refined table e') (same : ∀ p, p ∈ own ↔ p ∈ table) : e.Refined own e' := by
  refine of_values fun call call' r s t v u mirrors run => ?_
  obtain ⟨w, run', mirrors'⟩ := h.values call call' (mirrors.mono fun p mem => (same p).2 mem) run
  exact ⟨w, run', mirrors'.mono fun p mem => (same p).1 mem⟩

theorem of_run (second : e'.Refined table e'') (h : ∀ (call : Caller) r s v t,
      e.evaluate call r s = (.ok (.ok v), t) → e'.evaluate call r s = (.ok (.ok v), t)) :
    e.Refined table e'' :=
  of_values fun call call' r s _ v u mirrors run => second.values call call' mirrors (h call r s v u run)

theorem value (v : Value) : (Expr.value v).Refined table (.value v) := fun _ _ => .pure rfl

theorem error (error : QueryError) (e' : Expr) : (Expr.error error).Refined table e' :=
  of_values fun _ _ _ _ _ _ _ _ run => by cases run

theorem var {ref : VarRef} (mem : (ref.slot, a) ∈ table) (atom : e'.Atom live a) :
    (Expr.var ref).Refined table e' := by
  refine of_values fun call call' r s t v u mirrors run => ?_
  obtain ⟨here, rfl⟩ := Run.get_ok_iff.1 run
  have held := (mirrors.cells _ mem).trans here
  cases atom with
  | value w =>
    cases held
    exact ⟨t, rfl, mirrors⟩
  | var _ => exact ⟨t, Run.get_ok_iff.2 ⟨held, rfl⟩, mirrors⟩

theorem focus (span : Span) : (Expr.focus span).Refined table (.focus span) := by
  refine of_values fun call call' r s t v u mirrors run => ?_
  obtain ⟨here, rfl⟩ := Run.focus_ok_iff.1 run
  exact ⟨t, Run.focus_ok_iff.2 ⟨mirrors.focus.trans here, rfl⟩, mirrors⟩

theorem letIn {id id' : VarId} (bound : lhs.Refined table lhs')
    (fresh : ∀ p ∈ table, p.1 ≠ slot ∧ p.2 ≠ .cell slot)
    (body : rhs.Refined ((slot, .cell slot) :: table) rhs') :
    (Expr.letIn id slot lhs rhs).Refined table (.letIn id' slot lhs' rhs') := by
  refine of_values fun call call' r s t v u mirrors run => ?_
  obtain ⟨w, s₁, first, rest⟩ := Computation.of_bind_ok run
  obtain ⟨_, s₂, second, third⟩ := Computation.of_bind_ok rest
  obtain ⟨inside, rfl⟩ := Run.set_ok_iff.1 second
  obtain ⟨t₁, first', mirrors₁⟩ := bound.values call call' mirrors first
  obtain ⟨u', third', mirrors₃⟩ := body.values call call' (mirrors₁.set fresh inside) third
  refine ⟨u', ?_, mirrors₃.mono fun p mem => List.mem_cons_of_mem _ mem⟩
  change (lhs'.evaluate call' >>= fun w => Run.set slot w >>= fun _ => rhs'.evaluate call') r t = _
  rw [Computation.run_bind, first']
  dsimp only
  rw [Computation.run_bind, Run.set_ok_iff.2 ⟨by rw [mirrors₁.base, mirrors₁.size]; exact inside, rfl⟩]
  exact third'

theorem arith (op : ArithOp) (span : Span) (left : lhs.Refined table lhs')
    (right : rhs.Refined table rhs') :
    (Expr.arith op lhs rhs span).Refined table (.arith op lhs' rhs' span) := by
  intro call call'
  refine (left call call').bind ?_
  rintro l _ rfl
  refine (right call call').bind ?_
  rintro r _ rfl
  exact .ofExcept (.refl (fun _ => rfl) _)

theorem compare (op : CompareOp) (span : Span) (left : lhs.Refined table lhs')
    (right : rhs.Refined table rhs') :
    (Expr.compare op lhs rhs span).Refined table (.compare op lhs' rhs' span) := by
  intro call call'
  refine (left call call').bind ?_
  rintro l _ rfl
  refine (right call call').bind ?_
  rintro r _ rfl
  refine Likeness.Follows.bind (.ofExcept (.refl (fun _ => rfl) _)) ?_
  rintro b _ rfl
  exact .pure rfl

theorem branch (span : Span) (condition : cond.Refined table cond') (positive : yes.Refined table yes')
    (negative : no.Refined table no') :
    (Expr.branch cond yes no span).Refined table (.branch cond' yes' no' span) := by
  intro call call'
  refine (condition call call').bind ?_
  rintro v _ rfl
  refine Likeness.Follows.bind (.ofExcept (.refl (fun _ => rfl) _)) ?_
  rintro b _ rfl
  exact .ite .rfl (positive call call') (negative call call')

theorem list (all : List.Forall₂ (Refined table) es es') (call call' : Caller) :
    (mirroring table).Follows (· = ·) (evaluateList call es) (evaluateList call' es') := by
  induction all with
  | nil => exact .pure rfl
  | cons head _ ih =>
    refine (head call call').bind ?_
    rintro v _ rfl
    refine ih.bind ?_
    rintro vs _ rfl
    exact .pure rfl

theorem seq (all : List.Forall₂ (Refined table) es es') :
    (Expr.seq es).Refined table (.seq es') := by
  intro call call'
  refine (list all call call').bind ?_
  rintro vs _ rfl
  exact .pure rfl

theorem treat (type : SeqType) (span : Span) (h : e.Refined table e') :
    (Expr.treat e type span).Refined table (.treat e' type span) := by
  intro call call'
  refine (h call call').bind ?_
  rintro v _ rfl
  exact .ite .rfl (.pure rfl) (.throw _)

theorem random (bound : Int64) :
    (mirroring table).Follows (· = ·) (Run.random bound) (Run.random bound) := by
  rintro _ r s t rfl mirrors _ u ⟨⟩ -
  refine ⟨_, _, rfl, ?_, { mirrors with random := ?_ }⟩
  · exact mirrors.random ▸ .ok rfl
  · dsimp only
    rw [mirrors.random]

theorem apply {function : Builtin} (calls : function.callsBack = false) (invoke invoke' : Invocation)
    (args : List Value) (span : Span) :
    (mirroring table).Follows (· = ·) (function.apply invoke args span)
      (function.apply invoke' args span) := by
  unfold Builtin.apply
  split
  · cases calls
  · cases calls
  · cases calls
  · refine Likeness.Follows.bind (.ofExcept (.refl (fun _ => rfl) _)) ?_
    rintro f _ rfl
    exact .pure rfl
  · refine Likeness.Follows.bind (.ofExcept (.refl (fun _ => rfl) _)) ?_
    rintro f _ rfl
    exact .pure rfl
  · exact .pure rfl
  · refine Likeness.Follows.bind (.ofExcept (.refl (fun _ => rfl) _)) ?_
    rintro i _ rfl
    refine Likeness.Follows.bind (random i) ?_
    rintro n _ rfl
    exact .pure rfl
  · exact .throw _
  · rename_i v
    have added : (mirroring table).Follows (fun _ _ => True) (Run.addUpdate v) (Run.addUpdate v) :=
      .modify fun s t mirrors => { mirrors with updates := by dsimp only; rw [mirrors.updates] }
    exact added.bind fun _ _ _ => .pure rfl
  · exact .throw _

theorem builtin {function : Builtin} (calls : function.callsBack = false) (span : Span)
    (all : List.Forall₂ (Refined table) es es') :
    (Expr.builtin function es span).Refined table (.builtin function es' span) := by
  intro call call'
  refine (list all call call').bind ?_
  rintro vs _ rfl
  exact apply calls _ _ vs span

end Expr.Refined

end QueryFunctions
