import QueryFunctions.Proofs.CallFree.Mirror

/-! Code without calls reads no slots but those of its variables and writes none but those of its own
lets. So it refines itself where other slots differ; and if it has no effects, a run differs from no run
in such slots only. -/
namespace QueryFunctions

/-- All slots that the table mentions are those of variables in scope. -/
def Table.Within (table : Table) (live : Live) : Prop :=
  ∀ q ∈ table, q.1 ∈ live.map Prod.snd ∧ ∀ slot, q.2 = .cell slot → slot ∈ live.map Prod.snd

namespace Table.Within

variable {table : Table} {live : Live} {id : VarId} {slot : Nat}

theorem of_live (live : Live) : Within live.table live := by
  intro q mem
  obtain ⟨p, among, rfl⟩ := List.mem_map.1 mem
  have here : p.2 ∈ live.map Prod.snd := List.mem_map_of_mem among
  refine ⟨here, fun slot same => ?_⟩
  cases same
  exact here

theorem fresh (h : Within table live) (apart : ∀ p ∈ live, p.1 ≠ id ∧ p.2 ≠ slot) :
    ∀ q ∈ table, q.1 ≠ slot ∧ q.2 ≠ .cell slot := by
  have absent : slot ∉ live.map Prod.snd := by
    intro mem
    obtain ⟨p, among, same⟩ := List.mem_map.1 mem
    exact (apart p among).2 same
  exact fun q mem => ⟨fun same => absent (same ▸ (h q mem).1), fun same => absent ((h q mem).2 slot same)⟩

theorem cons {a : Standin} (h : Within table live)
    (known : ∀ n, a = .cell n → n ∈ slot :: live.map Prod.snd) :
    Within ((slot, a) :: table) ((id, slot) :: live) := by
  intro q mem
  rcases List.mem_cons.1 mem with rfl | mem
  · exact ⟨List.mem_cons_self, known⟩
  · exact ⟨List.mem_cons_of_mem _ (h q mem).1, fun n same => List.mem_cons_of_mem _ ((h q mem).2 n same)⟩

end Table.Within

theorem Live.mem_table {live : Live} {p : VarId × Nat} (mem : p ∈ live) : (p.2, .cell p.2) ∈ live.table :=
  List.mem_map_of_mem (f := fun p => (p.2, Standin.cell p.2)) mem

theorem Live.table_same (live : Live) : ∀ q ∈ live.table, q.2 = .cell q.1 := by
  intro q mem
  obtain ⟨p, -, rfl⟩ := List.mem_map.1 mem
  rfl

theorem Live.table_kept (live : Live) :
    ∀ q ∈ live.table, ∀ slot, q.2 = .cell slot → (slot, .cell slot) ∈ live.table := by
  intro q mem slot same
  rw [live.table_same q mem] at same
  cases same
  rw [← live.table_same q mem]
  exact mem

namespace Expr.CallFree

variable {layout live : Live} {e : Expr} {table : Table}

/-- Code without calls refines itself if the table leaves the variables that it refers to in place. -/
theorem refined (h : e.CallFree layout live) (within : table.Within live)
    (reads : ∀ p ∈ live, e.references p.1 = true → (p.2, .cell p.2) ∈ table) : e.Refined table e := by
  have operands {p e : Expr} {live : Live} {table : Table}
      (reads : ∀ p ∈ live, e.references p.1 = true → (p.2, .cell p.2) ∈ table) (mem : p ∈ e.operands) :
      ∀ q ∈ live, p.references q.1 = true → (q.2, .cell q.2) ∈ table :=
    fun q among refers => reads q among (references_of_mem_operands mem refers)
  induction h generalizing table with
  | value => exact .value _
  | @var live ref mem =>
    refine .var (reads _ mem ?_) (.var mem)
    rw [references_var, beq_self_eq_true]
  | focus => exact .focus _
  | error => exact .error _ _
  | letIn known fresh _ _ ihv ihb =>
    refine .letIn (ihv within (operands reads (by simp [Expr.operands]))) (within.fresh fresh)
      (ihb (within.cons ?_) fun p mem refers => ?_)
    · rintro n ⟨⟩
      exact List.mem_cons_self
    · rcases List.mem_cons.1 mem with rfl | mem
      · exact List.mem_cons_self
      · exact List.mem_cons_of_mem _ (operands reads (by simp [Expr.operands]) p mem refers)
  | branch _ _ _ ihc ihy ihn =>
    exact .branch _ (ihc within (operands reads (by simp [Expr.operands])))
      (ihy within (operands reads (by simp [Expr.operands])))
      (ihn within (operands reads (by simp [Expr.operands])))
  | arith _ _ ihl ihr =>
    exact .arith _ _ (ihl within (operands reads (by simp [Expr.operands])))
      (ihr within (operands reads (by simp [Expr.operands])))
  | compare _ _ ihl ihr =>
    exact .compare _ _ (ihl within (operands reads (by simp [Expr.operands])))
      (ihr within (operands reads (by simp [Expr.operands])))
  | seq _ ih =>
    exact .seq (List.forall₂_same.2 fun e mem => ih e mem within (operands reads mem))
  | treat _ ih => exact .treat _ _ (ih within (operands reads (by simp [Expr.operands])))
  | builtin calls _ ih =>
    exact .builtin calls _ (List.forall₂_same.2 fun e mem => ih e mem within (operands reads mem))

theorem refined_self (h : e.CallFree layout live) : e.Refined live.table e :=
  h.refined (.of_live live) fun _ mem _ => Live.mem_table mem

end Expr.CallFree

/-- A run changes slots that are not in scope, and nothing else. -/
def Live.quiet (live : Live) : Law RunState where
  holds _ := True
  leads s t := t.Mirrors live.table s
  refl s := .refl s live.table_same
  trans first second := second.trans first live.table_kept

namespace Expr.CallFree

variable {layout live : Live} {e : Expr} {r : RunSetting}

theorem evaluateList_quiet {es : List Expr} {call : Caller} (each : ∀ e ∈ es, ∀ s : RunState,
      live.quiet.Keeps r s (e.evaluate call) fun _ _ => True) (s : RunState) :
    live.quiet.Keeps r s (evaluateList call es) fun _ _ => True := by
  induction es generalizing s with
  | nil => exact .pure trivial trivial
  | cons e es ih =>
    refine .bind (each e List.mem_cons_self s) fun v t _ _ _ => ?_
    exact .bind (ih (fun e mem => each e (List.mem_cons_of_mem _ mem)) t) fun _ _ _ _ _ =>
      .pure trivial trivial

theorem ofExcept_quiet {α : Type} (result : Except QueryError α) (s : RunState) :
    live.quiet.Keeps r s (ofExcept result) fun _ _ => True :=
  (Law.Keeps.ofExcept trivial).mono fun _ _ _ _ _ => trivial

theorem apply_quiet {function : Builtin} (calls : function.callsBack = false)
    (upd : function.flags.contains .upd = false) (ndt : function.flags.contains .ndt = false)
    (invoke : Invocation) (args : List Value) (span : Span) (s : RunState) :
    live.quiet.Keeps r s (function.apply invoke args span) fun _ _ => True := by
  unfold Builtin.apply
  split
  · cases calls
  · cases calls
  · cases calls
  · exact .bind (ofExcept_quiet _ s) fun _ _ _ _ _ => .pure trivial trivial
  · exact .bind (ofExcept_quiet _ s) fun _ _ _ _ _ => .pure trivial trivial
  · exact .pure trivial trivial
  · cases ndt
  · exact .throw trivial
  · cases upd
  · exact .throw trivial

theorem keeps_quiet (h : e.CallFree layout live) (upd : e.has .upd = false) (ndt : e.has .ndt = false)
    (call : Caller) (s : RunState) : live.quiet.Keeps r s (e.evaluate call) fun _ _ => True := by
  induction h generalizing s with
  | value => exact .pure trivial trivial
  | @var live ref mem =>
    change live.quiet.Keeps r s (Run.get ref.slot) _
    rintro result t run
    rw [Run.get_eq] at run
    split at run
    · cases run
      exact ⟨trivial, live.quiet.refl _, fun _ _ => trivial⟩
    · cases run
  | @focus live span =>
    change live.quiet.Keeps r s (Run.focus span) _
    rintro result t run
    rw [Run.focus_eq] at run
    split at run <;> cases run <;> exact ⟨trivial, live.quiet.refl _, fun _ _ => trivial⟩
  | error => exact .throw trivial
  | @letIn live id slot bound body known fresh _ _ ihv ihb =>
    simp only [has, Bool.or_eq_false_iff] at upd ndt
    refine .bind (ihv upd.1 ndt.1 s) fun v t _ _ _ => ?_
    have written : live.quiet.Keeps r t (Run.set slot v) fun _ _ => True := by
      rintro result u run
      rw [Run.set_eq] at run
      split at run
      · rename_i inside
        cases run
        have changed := (RunState.Mirrors.refl t live.table_same).set_left (a := .value v)
          (fun q mem => ((Table.Within.of_live live).fresh fresh q mem).1) inside rfl
        exact ⟨trivial, changed.mono fun _ mem => List.mem_cons_of_mem _ mem, fun _ _ => trivial⟩
      · cases run
    refine .bind written fun _ u _ _ _ => ?_
    intro result w run
    obtain ⟨-, changed, -⟩ := ihb upd.2 ndt.2 u result w run
    exact ⟨trivial, changed.mono fun _ mem => List.mem_cons_of_mem _ mem, fun _ _ => trivial⟩
  | branch _ _ _ ihc ihy ihn =>
    simp only [has, Bool.or_eq_false_iff] at upd ndt
    refine .bind (ihc upd.1.1 ndt.1.1 s) fun v t _ _ _ => ?_
    refine .bind (ofExcept_quiet _ t) fun b u _ _ _ => ?_
    split
    · exact ihy upd.1.2 ndt.1.2 u
    · exact ihn upd.2 ndt.2 u
  | arith _ _ ihl ihr =>
    simp only [has, Bool.or_eq_false_iff] at upd ndt
    refine .bind (ihl upd.1 ndt.1 s) fun _ t _ _ _ => ?_
    exact .bind (ihr upd.2 ndt.2 t) fun _ u _ _ _ => ofExcept_quiet _ u
  | compare _ _ ihl ihr =>
    simp only [has, Bool.or_eq_false_iff] at upd ndt
    refine .bind (ihl upd.1 ndt.1 s) fun _ t _ _ _ => ?_
    refine .bind (ihr upd.2 ndt.2 t) fun _ u _ _ _ => ?_
    exact .bind (ofExcept_quiet _ u) fun _ _ _ _ _ => .pure trivial trivial
  | seq _ ih =>
    simp only [has, anyHas_eq_any, List.any_eq_false, Bool.not_eq_true] at upd ndt
    exact .bind (evaluateList_quiet (fun e mem => ih e mem (upd e mem) (ndt e mem)) s)
      fun _ _ _ _ _ => .pure trivial trivial
  | treat _ ih =>
    refine .bind (ih upd ndt s) fun v t _ _ _ => ?_
    split
    · exact .pure trivial trivial
    · exact .throw trivial
  | builtin calls _ ih =>
    simp only [has, anyHas_eq_any, Bool.or_eq_false_iff, List.any_eq_false, Bool.not_eq_true] at upd ndt
    refine .bind (evaluateList_quiet (fun e mem => ih e mem (upd.2 e mem) (ndt.2 e mem)) s)
      fun vs t _ _ _ => ?_
    exact apply_quiet calls upd.1 ndt.1 _ vs _ t

end Expr.CallFree

end QueryFunctions
