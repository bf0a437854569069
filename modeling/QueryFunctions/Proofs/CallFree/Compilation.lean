import QueryFunctions.Compile.Simplify
import QueryFunctions.Proofs.CallFree.Folding
import QueryFunctions.Proofs.Law.Contract
import QueryFunctions.Proofs.Scope.Layout
import Mathlib.Data.List.Nodup
import QueryFunctions.Compile.Function

/-! The compiler at code without calls. It neither fails nor changes the state, and a budget as large as
the code suffices: substitution makes no code larger, and what is simplified on the way is smaller than the
let that is gone. A run of what it makes does what a run of the code as built does. -/
namespace QueryFunctions

open Contract

/-- Compilation in a scope of known layout, without errors and faults. -/
def laid (layout : Live) (size : Nat) : Contract CompileState where
  holds s := s.scope.layout = layout ∧ s.scope.frameSize = size
  leads _ _ := True
  refl _ := trivial
  trans _ _ := trivial
  raises _ := False
  faults _ := False

/-- Code without calls that is not larger than the budget is simplified. -/
def Simplifies (layout : Live) (frame budget : Nat) (simplify : Expr → Compile Expr) : Prop :=
  ∀ (live : Live) (e : Expr) (o : Options) (s : CompileState), (laid layout frame).holds s →
    e.CallFree layout live → e.size ≤ budget →
    (laid layout frame).Keeps o s (simplify e) fun e' _ => e.Improved layout live e'

/-- A constant or another variable that is put for a variable in scope. -/
structure Placing (live : Live) (x : VarId) (slot : Nat) (new : Expr) (a : Standin) : Prop where
  here : (x, slot) ∈ live
  only : ∀ p ∈ live, p.1 = x → p.2 = slot
  atom : new.Atom (live.without x) a

namespace Placing

variable {layout live : Live} {x y : VarId} {slot other : Nat} {new : Expr} {a : Standin}

theorem below (h : Placing live x slot new a) (fresh : ∀ p ∈ live, p.1 ≠ y ∧ p.2 ≠ other) :
    Placing ((y, other) :: live) x slot new a := by
  have apart : x ≠ y := (fresh _ h.here).1
  refine ⟨List.mem_cons_of_mem _ h.here, fun p mem same => ?_, ?_⟩
  · rcases List.mem_cons.1 mem with rfl | mem
    · exact absurd same.symm apart
    · exact h.only p mem same
  · rw [Live.without_cons apart.symm]
    cases h.atom with
    | value v => exact .value v
    | var mem => exact .var (List.mem_cons_of_mem _ mem)

theorem within (h : Placing live x slot new a) :
    Table.Within ((slot, a) :: (live.without x).table) live := by
  have known {p : VarId × Nat} (mem : p ∈ live.without x) : p.2 ∈ live.map Prod.snd :=
    List.mem_map_of_mem (Live.mem_without.1 mem).1
  intro q mem
  rcases List.mem_cons.1 mem with rfl | mem
  · refine ⟨List.mem_map_of_mem (f := Prod.snd) h.here, fun n same => ?_⟩
    cases same
    cases h.atom with
    | var among => exact known among
  · obtain ⟨p, among, rfl⟩ := List.mem_map.1 mem
    refine ⟨known among, fun n same => ?_⟩
    cases same
    exact known among

theorem kept (h : Placing live x slot new a) :
    ∀ q ∈ (slot, a) :: (live.without x).table, ∀ n, q.2 = .cell n →
      (n, .cell n) ∈ (live.without x).table := by
  intro q mem n same
  rcases List.mem_cons.1 mem with rfl | mem
  · cases same
    cases h.atom with
    | var among => exact Live.mem_table among
  · exact Live.table_kept _ q mem n same

theorem callFree (h : Placing live x slot new a) : new.CallFree layout (live.without x) := by
  cases h.atom with
  | value v => exact .value
  | var mem => exact .var mem

theorem size (h : Placing live x slot new a) : new.size = 1 := by
  cases h.atom <;> rfl

end Placing

/-- Code in which something else stands for a variable. -/
abbrev Replaced (layout live : Live) (x : VarId) (slot : Nat) (a : Standin) : Expr → Expr → Prop :=
  Expr.Rewritten layout (live.without x) ((slot, a) :: (live.without x).table)

section

variable {layout live : Live} {frame budget : Nat} {simplify : Expr → Compile Expr} {x : VarId}
  {slot : Nat} {new : Expr} {a : Standin} {e e' : Expr} {o : Options} {s : CompileState}

theorem Replaced.simplified (simplifies : Simplifies layout frame budget simplify)
    (placing : Placing live x slot new a) (h : Replaced layout live x slot a e e')
    (fits : e.size ≤ budget) (hs : (laid layout frame).holds s) :
    (laid layout frame).Keeps o s (simplify e') fun e' _ => Replaced layout live x slot a e e' :=
  (simplifies _ e' o s hs h.callFree (Nat.le_trans h.size fits)).mono fun _ _ _ _ improved =>
    h.trans improved placing.kept

theorem Replaced.unused (placing : Placing live x slot new a) (h : e.CallFree layout live)
    (absent : e.references x = false) : Replaced layout live x slot a e e := by
  refine ⟨h.without ⟨slot, placing.here⟩ absent, Nat.le_refl _,
    h.refined placing.within fun p mem refers => ?_⟩
  refine List.mem_cons_of_mem _ (Live.mem_table (Live.mem_without.2 ⟨mem, fun same => ?_⟩))
  rw [same, absent] at refers
  cases refers

theorem whereUsed_replaced {rewritten : Compile Expr} (placing : Placing live x slot new a)
    (h : e.CallFree layout live) (hs : (laid layout frame).holds s)
    (made : (laid layout frame).Keeps o s rewritten fun e' _ => Replaced layout live x slot a e e') :
    (laid layout frame).Keeps o s (whereUsed ⟨x, new⟩ e rewritten)
      fun e' _ => Replaced layout live x slot a e e' := by
  unfold whereUsed
  split
  · exact made
  · rename_i unused
    exact .pure hs (.unused placing h (Bool.eq_false_iff.2 unused))

theorem substituteList_replaced {es : List Expr} (each : ∀ e ∈ es, ∀ s, (laid layout frame).holds s →
      (laid layout frame).Keeps o s (e.substitute simplify ⟨x, new⟩)
        fun e' _ => Replaced layout live x slot a e e') (hs : (laid layout frame).holds s) :
    (laid layout frame).Keeps o s (substituteList simplify ⟨x, new⟩ es)
      fun es' _ => List.Forall₂ (Replaced layout live x slot a) es es' := by
  induction es generalizing s with
  | nil => exact .pure hs .nil
  | cons e es ih =>
    refine .bind (each e List.mem_cons_self s hs) fun e' t ht _ he' => ?_
    refine .bind (ih (fun e mem => each e (List.mem_cons_of_mem _ mem)) ht) fun es' u hu _ hes' => ?_
    exact .pure hu (.cons he' hes')

theorem Expr.CallFree.substitute (simplifies : Simplifies layout frame budget simplify)
    (h : e.CallFree layout live) (placing : Placing live x slot new a)
    (fits : e.size ≤ budget) (hs : (laid layout frame).holds s) :
    (laid layout frame).Keeps o s (e.substitute simplify ⟨x, new⟩)
      fun e' _ => Replaced layout live x slot a e e' := by
  have whole := h
  induction h generalizing s with
  | value => exact .pure hs (.unused placing .value rfl)
  | @var live ref mem =>
    refine .pure hs ?_
    dsimp only
    split
    · rename_i same
      have here : ref.slot = slot := placing.only _ mem (beq_iff_eq.1 same)
      refine ⟨placing.callFree, Nat.le_of_eq placing.size, .var ?_ placing.atom⟩
      rw [here]
      exact List.mem_cons_self
    · rename_i apart
      have among := Live.mem_without.2 ⟨mem, fun same => apart (beq_iff_eq.2 same)⟩
      exact ⟨.var among, Nat.le_refl _, .var (List.mem_cons_of_mem _ (Live.mem_table among)) (.var among)⟩
  | focus => exact .pure hs (.unused placing .focus rfl)
  | error => exact .pure hs (.unused placing .error rfl)
  | @letIn live y other bound body known fresh hv hb ihv ihb =>
    refine whereUsed_replaced placing whole hs ?_
    have smaller := fits
    simp only [Expr.size] at smaller
    refine .bind (ihv placing (by omega) hs hv) fun bound' t ht _ hbound => ?_
    refine .bind (ihb (placing.below fresh) (by omega) ht hb) fun body' u hu _ hbody => ?_
    have apart : y ≠ x := (fresh _ placing.here).1.symm
    unfold Replaced at hbody
    rw [Live.without_cons apart] at hbody
    refine Replaced.simplified simplifies placing (.letIn known
      (fun p mem => fresh p (Live.mem_without.1 mem).1) (placing.within.fresh fresh) hbound
      { hbody with refined := hbody.refined.congr fun p => ?_ }) fits hu
    simp only [Live.table, List.map_cons, List.mem_cons]
    exact or_left_comm
  | @branch live cond yes no span hc hy hn ihc ihy ihn =>
    refine whereUsed_replaced placing whole hs ?_
    have smaller := fits
    simp only [Expr.size] at smaller
    refine .bind (ihc placing (by omega) hs hc) fun cond' t ht _ hcond => ?_
    refine .bind (ihy placing (by omega) ht hy) fun yes' u hu _ hyes => ?_
    refine .bind (ihn placing (by omega) hu hn) fun no' w hw _ hno => ?_
    exact Replaced.simplified simplifies placing (.branch span hcond hyes hno) fits hw
  | @arith live op lhs rhs span hl hr ihl ihr =>
    refine whereUsed_replaced placing whole hs ?_
    have smaller := fits
    simp only [Expr.size] at smaller
    refine .bind (ihl placing (by omega) hs hl) fun lhs' t ht _ hlhs => ?_
    refine .bind (ihr placing (by omega) ht hr) fun rhs' u hu _ hrhs => ?_
    exact Replaced.simplified simplifies placing (.arith op span hlhs hrhs) fits hu
  | @compare live op lhs rhs span hl hr ihl ihr =>
    refine whereUsed_replaced placing whole hs ?_
    have smaller := fits
    simp only [Expr.size] at smaller
    refine .bind (ihl placing (by omega) hs hl) fun lhs' t ht _ hlhs => ?_
    refine .bind (ihr placing (by omega) ht hr) fun rhs' u hu _ hrhs => ?_
    exact Replaced.simplified simplifies placing (.compare op span hlhs hrhs) fits hu
  | @seq live items all ih =>
    refine whereUsed_replaced placing whole hs ?_
    have fit {e} (mem : e ∈ items) : e.size ≤ budget :=
      Nat.le_trans (Expr.size_le_listSize mem) (Nat.le_trans (Nat.le_succ _) fits)
    have each (e) (mem : e ∈ items) (s) (hs) := ih e mem (s := s) placing (fit mem) hs (all e mem)
    refine .bind (substituteList_replaced each hs) fun items' t ht _ hitems => ?_
    exact Replaced.simplified simplifies placing (.seq hitems) fits ht
  | @treat live e type span h ih =>
    refine whereUsed_replaced placing whole hs ?_
    have smaller := fits
    simp only [Expr.size] at smaller
    refine .bind (ih placing (by omega) hs h) fun e' t ht _ he => ?_
    exact Replaced.simplified simplifies placing (.treat type span he) fits ht
  | @builtin live function args span calls all ih =>
    refine whereUsed_replaced placing whole hs ?_
    have fit {e} (mem : e ∈ args) : e.size ≤ budget :=
      Nat.le_trans (Expr.size_le_listSize mem) (Nat.le_trans (Nat.le_succ _) fits)
    have each (e) (mem : e ∈ args) (s) (hs) := ih e mem (s := s) placing (fit mem) hs (all e mem)
    refine .bind (substituteList_replaced each hs) fun args' t ht _ hargs => ?_
    exact Replaced.simplified simplifies placing (.builtin calls span hargs) fits ht

end

section

variable {layout live : Live} {frame : Nat}

theorem Expr.CallFree.atom {bound : Expr} (h : bound.CallFree layout live) (atom : bound.isAtom = true) :
    ∃ a, bound.Atom live a := by
  cases h with
  | value => exact ⟨_, .value _⟩
  | var mem => exact ⟨_, .var mem⟩
  | _ => cases atom

/-- The let of a constant or a variable is gone once that stands for its variable everywhere. -/
theorem Replaced.improved {id : VarId} {slot : Nat} {bound body body' : Expr} {a : Standin}
    (fresh : ∀ p ∈ live, p.1 ≠ id ∧ p.2 ≠ slot) (atom : bound.Atom live a)
    (h : Replaced layout ((id, slot) :: live) id slot a body body') :
    Expr.Improved layout live (.letIn id slot bound body) body' := by
  have rest : Live.without ((id, slot) :: live) id = live := Live.without_self fun p mem => (fresh p mem).1
  refine ⟨rest ▸ h.callFree, ?_, .of_values fun call call' r s t v u mirrors run => ?_⟩
  · have := h.size
    simp only [Expr.size]
    omega
  obtain ⟨w, s₁, first, second⟩ := Computation.of_bind_ok run
  obtain ⟨_, s₂, written, third⟩ := Computation.of_bind_ok second
  obtain ⟨inside, rfl⟩ := Run.set_ok_iff.1 written
  have held : a.read t = some w ∧ s₁ = s := by
    cases atom with
    | value v =>
      cases first
      exact ⟨rfl, rfl⟩
    | var mem =>
      obtain ⟨here, same⟩ := Run.get_ok_iff.1 first
      exact ⟨(mirrors.cells _ (Live.mem_table mem)).trans here, same⟩
  obtain ⟨held, rfl⟩ := held
  have refined := h.refined
  rw [rest] at refined
  have apart := fun q mem => ((Table.Within.of_live live).fresh fresh q mem).1
  obtain ⟨w', run', mirrors'⟩ := refined.values call call' (mirrors.set_left apart inside held) third
  exact ⟨w', run', mirrors'.mono fun _ mem => List.mem_cons_of_mem _ mem⟩

theorem simplify_improves (budget : Nat) : Simplifies layout frame budget (Expr.simplify budget) := by
  induction budget with
  | zero => exact fun _ e _ _ _ _ fits => absurd e.size_pos (by omega)
  | succ budget ih =>
    intro live e o s hs h fits
    have whole := h
    change (laid layout frame).Keeps o s (e.simplifyWith (Expr.simplify budget)) _
    cases h with
    | value | var | focus | error => exact .pure hs (.refl whole)
    | @letIn _ id slot bound body known fresh hbound hbody =>
      simp only [Expr.simplifyWith]
      split
      · rename_i atom
        obtain ⟨a, atom⟩ := hbound.atom atom
        have placing : Placing ((id, slot) :: live) id slot bound a := by
          refine ⟨List.mem_cons_self, fun p mem same => ?_, ?_⟩
          · rcases List.mem_cons.1 mem with rfl | mem
            · rfl
            · exact absurd same (fresh p mem).1
          · rwa [Live.without_self fun p mem => (fresh p mem).1]
        have smaller : body.size ≤ budget := by
          simp only [Expr.size] at fits
          omega
        exact (hbody.substitute ih placing smaller hs).mono fun _ _ _ _ h => h.improved fresh atom
      · split
        · rename_i unused
          simp only [Bool.and_eq_true, Bool.not_eq_true'] at unused
          exact .pure hs (whole.drop_let unused.1.1 unused.1.2 unused.2)
        · exact .pure hs (.refl whole)
    | branch => exact .pure hs whole.foldBranch
    | arith => exact .pure hs whole.foldArith
    | compare => exact .pure hs whole.foldCompare
    | seq => exact .pure hs whole.foldSeq
    | treat => exact .pure hs whole.foldTreat
    | builtin => exact .pure hs whole.foldBuiltin

end

namespace Expr.Improved

variable {layout live : Live} {frame budget : Nat} {e e' : Expr} {o : Options} {s : CompileState}

theorem simplified (h : Improved layout live e e') (fits : e.size ≤ budget)
    (hs : (laid layout frame).holds s) :
    (laid layout frame).Keeps o s (e'.simplify budget) fun e' _ => Improved layout live e e' :=
  (simplify_improves budget _ e' o s hs h.callFree (Nat.le_trans h.size fits)).mono
    fun _ _ _ _ improved => h.trans improved live.table_kept

end Expr.Improved

section

variable {layout live : Live} {frame budget : Nat} {e : Expr} {o : Options} {s : CompileState}
  {prepare : FuncId → Compile Unit}

theorem compileRef_improves {ref : VarRef} (distinct : (layout.map Prod.fst).Nodup)
    (known : ∀ p ∈ live, p ∈ layout) (mem : (ref.id, ref.slot) ∈ live)
    (hs : (laid layout frame).holds s) : (laid layout frame).Keeps o s (Compile.compileRef ref)
      fun e' _ => Expr.Improved layout live (.var ref) e' := by
  refine .bind (.get hs) fun t _ _ _ same => ?_
  obtain ⟨rfl, rfl⟩ := same
  split
  · rename_i v found
    have declared := (Scope.mem_layout_of_find? found).2
    rw [hs.1] at declared
    have slot : v.slot = ref.slot :=
      congrArg Prod.snd (List.inj_on_of_nodup_map distinct declared (known _ mem) rfl)
    rw [slot]
    exact .pure hs ⟨.var mem, Nat.le_refl _, .var (Live.mem_table mem) (.var mem)⟩
  · exact .pure hs (.refl (.var mem))

theorem compileList_improves {es : List Expr} (each : ∀ e ∈ es, ∀ s, (laid layout frame).holds s →
      (laid layout frame).Keeps o s (e.compileWith (Expr.simplify budget) prepare)
        fun e' _ => Expr.Improved layout live e e') (hs : (laid layout frame).holds s) :
    (laid layout frame).Keeps o s (compileList (Expr.simplify budget) prepare es)
      fun es' _ => List.Forall₂ (Expr.Improved layout live) es es' := by
  induction es generalizing s with
  | nil => exact .pure hs .nil
  | cons e es ih =>
    refine .bind (each e List.mem_cons_self s hs) fun e' t ht _ he' => ?_
    refine .bind (ih (fun e mem => each e (List.mem_cons_of_mem _ mem)) ht) fun es' u hu _ hes' => ?_
    exact .pure hu (.cons he' hes')

theorem Expr.CallFree.compileWith (h : e.CallFree layout live) (distinct : (layout.map Prod.fst).Nodup)
    (known : ∀ p ∈ live, p ∈ layout) (fits : e.size ≤ budget) (hs : (laid layout frame).holds s) :
    (laid layout frame).Keeps o s (e.compileWith (Expr.simplify budget) prepare)
      fun e' _ => Improved layout live e e' := by
  induction h generalizing s with
  | value => exact .pure hs (.refl .value)
  | var mem => exact compileRef_improves distinct known mem hs
  | focus => exact .pure hs (.refl .focus)
  | error => exact .pure hs (.refl .error)
  | @letIn live id slot bound body here fresh _ _ ihv ihb =>
    have smaller := fits
    simp only [Expr.size] at smaller
    refine .bind (ihv known (by omega) hs) fun bound' t ht _ hbound => ?_
    have refined : (laid layout frame).Keeps o t
        (Compile.modifyScope (·.refine id bound'.inferredType)) fun _ _ => True :=
      .of_eq rfl ⟨(Scope.layout_refine _ _ _).trans ht.1, ht.2⟩ trivial trivial
    refine .skip refined fun _ u hu _ => ?_
    refine .bind (ihb (List.forall_mem_cons.2 ⟨here, known⟩) (by omega) hu) fun body' w hw _ hbody => ?_
    exact Improved.simplified (.letIn here fresh ((Table.Within.of_live live).fresh fresh) hbound hbody)
      fits hw
  | @branch live cond yes no span _ _ _ ihc ihy ihn =>
    have smaller := fits
    simp only [Expr.size] at smaller
    refine .bind (ihc known (by omega) hs) fun cond' t ht _ hcond => ?_
    refine .bind (ihy known (by omega) ht) fun yes' u hu _ hyes => ?_
    refine .bind (ihn known (by omega) hu) fun no' w hw _ hno => ?_
    exact Improved.simplified (.branch span hcond hyes hno) fits hw
  | @arith live op lhs rhs span _ _ ihl ihr =>
    have smaller := fits
    simp only [Expr.size] at smaller
    refine .bind (ihl known (by omega) hs) fun lhs' t ht _ hlhs => ?_
    refine .bind (ihr known (by omega) ht) fun rhs' u hu _ hrhs => ?_
    exact Improved.simplified (.arith op span hlhs hrhs) fits hu
  | @compare live op lhs rhs span _ _ ihl ihr =>
    have smaller := fits
    simp only [Expr.size] at smaller
    refine .bind (ihl known (by omega) hs) fun lhs' t ht _ hlhs => ?_
    refine .bind (ihr known (by omega) ht) fun rhs' u hu _ hrhs => ?_
    exact Improved.simplified (.compare op span hlhs hrhs) fits hu
  | @seq live items _ ih =>
    have fit {e} (mem : e ∈ items) : e.size ≤ budget :=
      Nat.le_trans (Expr.size_le_listSize mem) (Nat.le_trans (Nat.le_succ _) fits)
    refine .bind (compileList_improves (fun e mem s hs => ih e mem known (fit mem) hs) hs)
      fun items' t ht _ hitems => ?_
    exact Improved.simplified (.seq hitems) fits ht
  | @treat live e type span _ ih =>
    have smaller := fits
    simp only [Expr.size] at smaller
    refine .bind (ih known (by omega) hs) fun e' t ht _ he => ?_
    exact Improved.simplified (.treat type span he) fits ht
  | @builtin live function args span calls _ ih =>
    have fit {e} (mem : e ∈ args) : e.size ≤ budget :=
      Nat.le_trans (Expr.size_le_listSize mem) (Nat.le_trans (Nat.le_succ _) fits)
    refine .bind (compileList_improves (fun e mem s hs => ih e mem known (fit mem) hs) hs)
      fun args' t ht _ hargs => ?_
    exact Improved.simplified (.builtin calls span hargs) fits ht

end

end QueryFunctions
