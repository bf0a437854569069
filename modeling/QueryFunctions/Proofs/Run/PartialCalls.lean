import Mathlib
import QueryFunctions.Proofs.Run.Places
import QueryFunctions.Proofs.Run.Brackets

/-! Partial applications. A call of the item that a partial application makes puts its arguments to the
supplied ones, in a frame of its own, and hands back the call of the original function with all of them.
So it ends as that call does, at the same depth, but for the place that an error tells. -/
namespace QueryFunctions

/-- All `n` arguments of a function: those for the open positions in the order of `holes`, the supplied
ones at the other positions, from left to right. -/
structure Fills (n : Nat) (holes : List Nat) (given supplied full : List Value) : Prop where
  length : full.length = n
  placed : ∀ i hole : Nat, holes[i]? = some hole → full[hole]? = given[i]?
  others : (full.zipIdx.filter fun p => decide (p.2 ∉ holes)).map Prod.fst = supplied

structure Scope.Row (n : Nat) (s : Scope) : Prop where
  slots : s.slots = List.replicate n true
  vars : s.vars.map (·.slot) = List.range n
  undeclared : ∀ v ∈ s.vars, v.declared = none

theorem Scope.Row.add {n : Nat} {s : Scope} (row : s.Row n) (id : VarId) (name : String) :
    (s.add id name none true).Row (n + 1) := by
  have free : s.freeSlot = n := by
    unfold Scope.freeSlot
    rw [row.slots, List.idxOf_eq_length (by simp), List.length_replicate]
  refine ⟨?_, ?_, fun v mem => ?_⟩
  · simp only [Scope.add, Scope.takeSlot, free, row.slots, List.length_replicate, Nat.lt_irrefl,
      if_false, ← List.replicate_succ']
  · simp only [Scope.add, free, List.map_append, row.vars, List.range_succ, List.map_cons, List.map_nil]
  · rcases List.mem_append.1 mem with old | last
    · exact row.undeclared v old
    · rw [List.mem_singleton.1 last]

namespace PartialApplication

variable {item m : FuncItem} {supplied : List Value} {holes : List Nat} {place : Span}

theorem openVariables_row (item : FuncItem) (first : Nat) (holes : List Nat) {scope : Scope} {n : Nat}
    (row : scope.Row n) (supply : Supply) :
    ((openVariables item scope first holes).run supply).1.Row (n + holes.length) := by
  induction holes generalizing first scope supply n with
  | nil => exact row
  | cons hole holes ih =>
    have rest := ih (first + 1) (row.add ⟨supply.nextVar⟩ ((item.paramName? hole).getD s!"arg{first + 1}"))
      { supply with nextVar := supply.nextVar + 1 }
    rw [List.length_cons, Nat.add_comm holes.length, ← Nat.add_assoc]
    exact rest

theorem openTypes_of_lt {params : List SeqType} (below : ∀ hole ∈ holes, hole < params.length) :
    ∃ types, openTypes params holes = .ok types ∧ types.length = holes.length := by
  induction holes with
  | nil => exact ⟨[], rfl, rfl⟩
  | cons hole holes ih =>
    obtain ⟨types, rest, length⟩ := ih fun h mem => below h (List.mem_cons_of_mem _ mem)
    have lt := below hole List.mem_cons_self
    refine ⟨params[hole] :: types, ?_, congrArg Nat.succ length⟩
    unfold openTypes at rest ⊢
    rw [List.mapM_cons, rest, List.getElem?_eq_getElem lt]
    rfl

/-- The code that a partial application makes. -/
structure Applies (item : FuncItem) (supplied : List Value) (holes : List Nat) (place : Span)
    (m : FuncItem) : Prop where
  arity : m.arity = holes.length
  code : ∃ scope : Scope, scope.Row holes.length ∧
    m.code = .closure scope.vars [] (.dynamicCall ⟨item.isUpdating, true, [], place⟩ (.value (.func item))
      (arrange holes (scope.vars.map fun v => .var ⟨v.id, v.slot, v.type, place⟩) 0
        (supplied.length + holes.length) supplied)) scope

theorem make_applies (supplied : List Value) (place : Span) (supply : Supply)
    (below : ∀ hole ∈ holes, hole < item.arity) :
    ∃ m t, make item supplied holes place supply = .ok (m, t) ∧ Applies item supplied holes place m := by
  have lengths : ∀ hole ∈ holes, hole < item.type.params.length := below
  obtain ⟨types, opened, length⟩ := openTypes_of_lt lengths
  have row : ((openVariables item {} 0 holes).run supply).1.Row (0 + holes.length) :=
    openVariables_row item 0 holes ⟨rfl, rfl, fun v mem => by cases mem⟩ supply
  rw [Nat.zero_add] at row
  have type : openType item.type holes = .ok { item.type with params := types } := by
    unfold openType
    rw [opened]
    rfl
  refine ⟨?m, ?t, ?made, ⟨?arity, _, row, ?code⟩⟩
  case made =>
    unfold make
    simp only [bind, StateT.bind, liftSupply, Except.bind, type]
    rfl
  case arity => exact length
  case code => rfl

end PartialApplication

namespace Run

theorem bindParams_run (function : String) (place : Span) (r : RunSetting) {vs : List Variable}
    {args : List Value} {first : Nat} {s : RunState} (undeclared : ∀ v ∈ vs, v.declared = none)
    (row : vs.map (·.slot) = List.range' first vs.length) (length : args.length = vs.length)
    (fits : s.base + first + vs.length ≤ s.stack.size) :
    ∃ stack, bindParams function place vs args r s = (.ok (.ok ()), { s with stack }) ∧
      stack.size = s.stack.size ∧ (∀ i < args.length, stack[s.base + first + i]? = args[i]?) ∧
      ∀ j < s.base + first, stack[j]? = s.stack[j]? := by
  induction vs generalizing args first s with
  | nil =>
    obtain rfl := List.length_eq_zero_iff.1 length
    exact ⟨s.stack, rfl, rfl, by simp, fun _ _ => rfl⟩
  | cons v vs ih =>
    cases args with
    | nil => cases length
    | cons arg args =>
      rw [List.length_cons, List.range'_succ, List.map_cons] at row
      obtain ⟨rfl, rest⟩ := List.cons.inj row
      rw [List.length_cons] at fits
      let t := { s with stack := s.stack.setIfInBounds (s.base + v.slot) arg }
      have size : t.stack.size = s.stack.size := Array.size_setIfInBounds
      have length' : args.length = vs.length := Nat.succ.inj length
      have room : t.base + (v.slot + 1) + vs.length ≤ t.stack.size := by
        rw [size]
        change s.base + (v.slot + 1) + vs.length ≤ s.stack.size
        omega
      obtain ⟨stack, run, same, bound, below⟩ :=
        ih (fun v mem => undeclared v (List.mem_cons_of_mem _ mem)) rest length' room
      refine ⟨stack, ?_, same.trans size, fun i lt => ?_, fun j lt => ?_⟩
      · have step : bindParams function place (v :: vs) (arg :: args) r s =
            (do set v.slot arg; bindParams function place vs args : Run Unit) r s := by
          conv_lhs => unfold bindParams
          rw [undeclared v List.mem_cons_self]
        rw [step, Computation.run_bind, set_ok_iff.2 ⟨by omega, rfl⟩]
        exact run
      · cases i with
        | zero =>
          rw [Nat.add_zero, below _ (by change s.base + v.slot < s.base + (v.slot + 1); omega)]
          change (s.stack.setIfInBounds (s.base + v.slot) arg)[s.base + v.slot]? = some arg
          rw [Array.getElem?_setIfInBounds_self_of_lt (by omega)]
        | succ i =>
          have here := bound i (Nat.lt_of_succ_lt_succ lt)
          change stack[s.base + (v.slot + 1) + i]? = args[i]? at here
          rw [List.getElem?_cons_succ, ← here]
          congr 1
          omega
      · rw [below j (by change j < s.base + (v.slot + 1); omega)]
        change (s.stack.setIfInBounds (s.base + v.slot) arg)[j]? = s.stack[j]?
        rw [Array.getElem?_setIfInBounds_ne (by omega)]

end Run

namespace PartialApplication

variable {item m : FuncItem} {given supplied : List Value} {holes : List Nat} {place : Span}

theorem arrange_run (call : Caller) (r : RunSetting) {s : RunState} {vars : List Variable}
    (row : vars.map (·.slot) = List.range holes.length) (count : given.length = holes.length)
    (bound : ∀ i < given.length, s.stack[s.base + i]? = given[i]?) {rest : List Value} {pos : Nat}
    {supplied : List Value}
    (placed : ∀ i hole : Nat, holes[i]? = some hole → pos ≤ hole → rest[hole - pos]? = given[i]?)
    (others : ((rest.zipIdx pos).filter fun p => decide (p.2 ∉ holes)).map Prod.fst = supplied) :
    evaluateList call (arrange holes (vars.map fun v => .var ⟨v.id, v.slot, v.type, place⟩) pos
      rest.length supplied) r s = (.ok (.ok rest), s) := by
  induction rest generalizing pos supplied with
  | nil => rfl
  | cons x rest ih =>
    have later : ∀ i hole : Nat, holes[i]? = some hole → pos + 1 ≤ hole →
        rest[hole - (pos + 1)]? = given[i]? := by
      intro i hole here le
      have this := placed i hole here (Nat.le_of_succ_le le)
      rwa [show hole - pos = hole - (pos + 1) + 1 by omega, List.getElem?_cons_succ] at this
    have followed {e : Expr} {es : List Expr} (head : e.evaluate call r s = (.ok (.ok x), s))
        (tail : evaluateList call es r s = (.ok (.ok rest), s)) :
        evaluateList call (e :: es) r s = (.ok (.ok (x :: rest)), s) := by
      change (e.evaluate call >>= fun v => _) r s = _
      rw [Computation.run_bind, head]
      change (evaluateList call es >>= fun vs => _) r s = _
      rw [Computation.run_bind, tail]
      rfl
    rw [List.zipIdx_cons, List.filter_cons] at others
    rw [List.length_cons]
    unfold arrange
    cases found : holes.idxOf? pos with
    | some i =>
      obtain ⟨lt, here, -⟩ := List.idxOf?_eq_some_iff.1 found
      have inside : i < vars.length := by
        rw [← List.length_map (·.slot), row, List.length_range]
        exact lt
      have slot : vars[i].slot = i := by
        have at_ := congrArg (·[i]?) row
        simpa [inside, lt] using at_
      have head : given[i]? = some x := by
        have this := placed i pos (List.getElem?_eq_some_iff.2 ⟨lt, here⟩) (Nat.le_refl _)
        rw [← this, Nat.sub_self]
        rfl
      have mem : pos ∈ holes := here ▸ List.getElem_mem lt
      have shown : (vars.map fun v => Expr.var ⟨v.id, v.slot, v.type, place⟩)[i]? =
          some (.var ⟨vars[i].id, i, vars[i].type, place⟩) := by
        rw [List.getElem?_map, List.getElem?_eq_getElem inside, Option.map_some, slot]
      rw [Option.bind_some, shown]
      rw [if_neg (by simpa using mem)] at others
      refine followed (Run.get_ok_iff.2 ⟨?_, rfl⟩) (ih later others)
      rw [bound i (by omega), head]
    | none =>
      have mem : pos ∉ holes := List.idxOf?_eq_none_iff.1 found
      rw [if_pos (by simpa using mem), List.map_cons] at others
      subst others
      exact followed rfl (ih later rfl)

/-- The call that is handed back meets no objection: it has all arguments, and is updating if the
function is. -/
theorem callable_run {n : Nat} (arity : item.arity = n) (r : RunSetting) (s : RunState) :
    DynamicSite.callable ⟨item.isUpdating, true, [], place⟩ (.func item) n r s =
      (.ok (.ok item), s) := by
  have allowed : item.checkUpdating item.isUpdating place r s = (.ok (.ok ()), s) := by
    change (if (!r.options.mixedUpdates) = true then _ else _ : Run Unit) r s = _
    cases r.options.mixedUpdates <;> cases item.isUpdating <;> rfl
  change (if item.arity ≠ n then _ else _ : Run FuncItem) r s = _
  rw [if_neg (not_not_intro arity)]
  change (item.checkUpdating item.isUpdating place >>= fun _ => _) r s = _
  rw [Computation.run_bind, allowed]
  rfl

theorem Applies.step_run (applies : Applies item supplied holes place m) {full : List Value}
    (count : supplied.length + holes.length = item.arity) (length : given.length = holes.length)
    (fills : Fills item.arity holes given supplied full) (call : Caller) (place' : Span)
    (r : RunSetting) (s : RunState) :
    Run.stepItem call m given place' r s = (.ok (.ok (.call (.item item full place))), s) := by
  obtain ⟨scope, row, code⟩ := applies.code
  let body : Expr := .dynamicCall ⟨item.isUpdating, true, [], place⟩ (.value (.func item))
    (arrange holes (scope.vars.map fun v => .var ⟨v.id, v.slot, v.type, place⟩) 0
      (supplied.length + holes.length) supplied)
  have whole : Run.stepItem call m given place' r s = Run.inFrame scope.frameSize (do
      Run.bindParams m.text place' scope.vars given
      Run.withoutFocus (body.evaluateTail call)) r s := by
    unfold Run.stepItem
    rw [if_neg (by rw [applies.arity, length]; simp), code]
    rfl
  have vars : scope.vars.length = holes.length := by
    rw [← List.length_map (·.slot), row.vars, List.length_range]
  have size : scope.frameSize = holes.length := by
    unfold Scope.frameSize
    rw [row.slots, List.length_replicate]
  have slots : scope.vars.map (·.slot) = List.range' 0 scope.vars.length := by
    rw [row.vars, vars, List.range_eq_range']
  have room : (s.pushed scope.frameSize).base + 0 + scope.vars.length ≤
      (s.pushed scope.frameSize).stack.size := by simp [RunState.pushed, vars, size]
  obtain ⟨stack, bind, same, bound, below⟩ :=
    Run.bindParams_run m.text place' r row.undeclared slots (length.trans vars.symm) room
  let t : RunState := { s.pushed scope.frameSize with stack, focus := none }
  have args : evaluateList call (arrange holes
      (scope.vars.map fun v => .var ⟨v.id, v.slot, v.type, place⟩) 0
        (supplied.length + holes.length) supplied) r t = (.ok (.ok full), t) := by
    rw [count, ← fills.length]
    refine arrange_run call r row.vars length (fun i lt => ?_) (fun i hole here _ => ?_) fills.others
    · exact bound i lt
    · exact fills.placed i hole here
  have tail : body.evaluateTail call r t = (.ok (.ok (.call (.item item full place))), t) := by
    change (DynamicSite.callable ⟨item.isUpdating, true, [], place⟩ (.func item) _ >>= fun f =>
      evaluateList call _ >>= fun vs => _) r t = _
    rw [Computation.run_bind, callable_run (by rw [arrange_length, count])]
    dsimp only
    rw [Computation.run_bind, args]
    rfl
  rw [whole, Run.inFrame_run, Computation.run_bind, bind]
  dsimp only
  rw [Run.withoutFocus_run]
  change Run.leaving _ (Run.leaving _ (body.evaluateTail call r t)) = _
  rw [tail]
  have popped : stack.shrink s.stack.size = s.stack := by
    refine RunState.shrink_eq (t := t) (n := scope.frameSize) ?_ fun i lt => ?_
    · exact same.trans (by simp [RunState.pushed])
    · exact (below i lt).trans (Array.getElem?_append_left lt)
  change (_, { s with stack := stack.shrink s.stack.size }) = _
  rw [popped]

theorem length_others {n : Nat} (distinct : holes.Nodup) (below : ∀ hole ∈ holes, hole < n) :
    ((List.range n).filter fun p => decide (p ∉ holes)).length + holes.length = n := by
  have split := List.length_eq_length_filter_add (l := List.range n) fun p => decide (p ∉ holes)
  have same : ((List.range n).filter fun p => !decide (p ∉ holes)).Perm holes := by
    refine (List.perm_ext_iff_of_nodup (List.nodup_range.filter _) distinct).2 fun p => ?_
    simpa using below p
  rw [List.length_range, same.length_eq] at split
  exact split.symm

theorem exists_fills {n : Nat} (distinct : holes.Nodup) (below : ∀ hole ∈ holes, hole < n)
    (count : supplied.length + holes.length = n) (length : given.length = holes.length) :
    ∃ full, Fills n holes given supplied full := by
  let rest := (List.range n).filter fun p => decide (p ∉ holes)
  let value (p : Nat) : Value :=
    if p ∈ holes then given.getD (holes.idxOf p) .empty else supplied.getD (rest.idxOf p) .empty
  have others : rest.map value = supplied := by
    have size : rest.length = supplied.length := by
      have total : rest.length + holes.length = n := length_others distinct below
      omega
    refine List.ext_getElem ((List.length_map _).trans size) fun i lt lt' => ?_
    rw [List.length_map] at lt
    have mem : rest[i] ∉ holes := by
      simpa using (List.mem_filter.1 (List.getElem_mem lt)).2
    simp only [List.getElem_map, value, if_neg mem]
    rw [(List.nodup_range.filter _).idxOf_getElem i lt, List.getD_eq_getElem _ _ lt']
  refine ⟨(List.range n).map value, by simp, fun i hole here => ?_, ?_⟩
  · obtain ⟨lt, rfl⟩ := List.getElem?_eq_some_iff.1 here
    have inside := below _ (List.getElem_mem lt)
    rw [List.getElem?_map, List.getElem?_range inside, Option.map_some]
    simp only [value, if_pos (List.getElem_mem lt)]
    rw [distinct.idxOf_getElem i lt, List.getD_eq_getElem _ _ (length ▸ lt),
      List.getElem?_eq_getElem (length ▸ lt)]
  · have paired : ((List.range n).map value).zipIdx = (List.range n).map fun p => (value p, p) :=
      List.ext_getElem (by simp) fun i _ _ => by simp
    rw [paired, List.filter_map, List.map_map]
    exact others

end PartialApplication

namespace RunState

/-- The present moment lasts for one poll longer. -/
def held (s : RunState) : RunState :=
  { s with host := ⟨s.host.present, s.host.present :: s.host.future⟩ }

/-- The state without what the host has in store. -/
def unhosted (s : RunState) : RunState := { s with host := .quiet }

end RunState

namespace Run

variable {budget : Nat} {next handed : PendingCall} {r : RunSetting} {s : RunState}

theorem loop_of_cancelled (cancelled : (s.host.present).cancelled = true) :
    loop (budget + 1) next r s = (.ok (.error .cancelled), s.later) := by
  change (checkInterrupt >>= fun _ =>
    step (fun inner => nested (loop budget inner)) next >>= _) r s = _
  rw [Computation.run_bind, checkInterrupt_run, if_pos cancelled]

section

variable (stepped : ∀ call r s, step call next r s = (.ok (.ok (.call handed)), s))

include stepped

theorem loop_of_step (budget : Nat) (r : RunSetting) (s : RunState) :
    loop (budget + 2) next r s = if s.host.present.cancelled then (.ok (.error .cancelled), s.later)
      else loop (budget + 1) handed r s.later := by
  change (checkInterrupt >>= fun _ =>
    step (fun inner => nested (loop (budget + 1) inner)) next >>= _) r s = _
  rw [Computation.run_bind, checkInterrupt_run]
  split_ifs
  · rfl
  · dsimp only
    rw [Computation.run_bind, stepped]

theorem nested_loop_held (budget : Nat) (r : RunSetting) (s : RunState) :
    leaving .unhosted (nested (loop (budget + 2) next) r s.held) =
      leaving .unhosted (nested (loop (budget + 1) handed) r s) := by
  have room : s.held.overflow? r.options = s.overflow? r.options := rfl
  rw [nested_run, nested_run, room]
  cases s.overflow? r.options with
  | some e => rfl
  | none =>
    have now : s.deeper.held.host.present = s.deeper.host.present := rfl
    have after : s.deeper.held.later = s.deeper := rfl
    change leaving _ (leaving _ (loop (budget + 2) next r s.deeper.held)) = _
    -- The first poll takes the moment that was put in front, and the call starts where the other does.
    rw [loop_of_step stepped, now, after]
    split_ifs with cancelled
    · dsimp only
      rw [loop_of_cancelled cancelled]
      rfl
    · rfl

theorem nested_loop_steady (budget : Nat) (r : RunSetting) (steady : s.later = s) :
    nested (loop (budget + 2) next) r s = nested (loop (budget + 1) handed) r s := by
  rw [nested_run, nested_run]
  cases s.overflow? r.options with
  | some e => rfl
  | none =>
    have deeper : s.deeper.later = s.deeper := congrArg RunState.deeper steady
    dsimp only
    rw [loop_of_step stepped, deeper]
    split_ifs with cancelled
    · rw [loop_of_cancelled cancelled, deeper]
    · rfl

end

/-- The arguments for the open positions and the supplied ones, put together, are what the item of a
partial application calls the function with. Between the two calls the run asks once more whether it
was cancelled: the outcome is that of the full call if the host does not change its mind just then. -/
theorem partial_call_agrees {item : FuncItem} {holes : List Nat} {supplied : List Value}
    (distinct : holes.Nodup) (below : ∀ hole ∈ holes, hole < item.arity)
    (count : supplied.length + holes.length = item.arity) (place : Span) (supply : Supply) :
    ∃ m t, PartialApplication.make item supplied holes place supply = .ok (m, t) ∧
      m.arity = holes.length ∧ ∀ given : List Value, given.length = holes.length →
        (∃ full, Fills item.arity holes given supplied full) ∧
        ∀ full, Fills item.arity holes given supplied full → ∀ budget place place' r s,
          Agree (leaving .unhosted (invoke (budget + 1) item full place r s))
            (leaving .unhosted (invoke (budget + 2) m given place' r s.held)) ∧
          (s.later = s →
            Agree (invoke (budget + 1) item full place r s) (invoke (budget + 2) m given place' r s)) := by
  obtain ⟨m, t, made, applies⟩ := PartialApplication.make_applies supplied place supply below
  refine ⟨m, t, made, applies.arity, fun given length =>
    ⟨PartialApplication.exists_fills distinct below count length, fun full fills => ?_⟩⟩
  intro budget place₁ place₂ r s
  have stepped : ∀ call r s, step call (.callback m given place₂) r s =
      (.ok (.ok (.call (.item item full place))), s) :=
    fun call => applies.step_run count length fills call place₂
  have likewise := call_placeless (budget + 1) item full place₁ place r s
  have held := nested_loop_held stepped budget r s
  rw [loop_item] at held
  refine ⟨?_, fun steady => ?_⟩
  · change Agree _ (leaving .unhosted (nested (loop (budget + 2) (.callback m given place₂)) r s.held))
    rw [held]
    exact likewise.leaving
  · have same := nested_loop_steady stepped budget r steady
    rw [loop_item] at same
    change Agree _ (nested (loop (budget + 2) (.callback m given place₂)) r s)
    rw [same]
    exact likewise

def adding : FuncItem :=
  let x : Variable := ⟨⟨0⟩, "x", some .integer, .integer, 0, true⟩
  let y : Variable := ⟨⟨1⟩, "y", some .integer, .integer, 1, true⟩
  { id := ⟨0⟩
    origin := ⟨0⟩
    name := none
    type := ⟨[.integer, .integer], .item, false⟩
    annotations := {}
    span := .synthetic
    code := .closure [x, y] [] (.arith .add (.var ⟨x.id, x.slot, .integer, .synthetic⟩)
        (.var ⟨y.id, y.slot, .integer, .synthetic⟩) .synthetic)
      { vars := [x, y], slots := [true, true] } }

/-- A fold whose function is given first and whose sequence is given last. -/
theorem partial_call_agrees_folding : ∃ m t,
    PartialApplication.make ((FuncItem.ofBuiltin .foldLeft).run {}).1 [.int 10] [2, 0] .synthetic {} =
      .ok (m, t) ∧
    (invoke 9 m [.func adding, .seq [.int 1, .int 2]] .synthetic ⟨{}, ({} : Options)⟩
      (.start {} {} .quiet none)).1 = .ok (.ok (.int 13)) := by
  have distinct : [2, 0].Nodup := by decide
  have below : ∀ hole ∈ [2, 0], hole < ((FuncItem.ofBuiltin .foldLeft).run {}).1.arity := by decide
  have count : ([.int 10] : List Value).length + [2, 0].length =
      ((FuncItem.ofBuiltin .foldLeft).run {}).1.arity := rfl
  obtain ⟨m, t, made, -, agrees⟩ := partial_call_agrees distinct below count .synthetic {}
  have placed : ∀ i hole : Nat, ([2, 0] : List Nat)[i]? = some hole →
      ([.seq [.int 1, .int 2], .int 10, .func adding] : List Value)[hole]? =
        ([.func adding, .seq [.int 1, .int 2]] : List Value)[i]? := by
    rintro (_ | _ | i) hole ⟨⟩ <;> rfl
  have same := ((agrees [.func adding, .seq [.int 1, .int 2]] rfl).2
    [.seq [.int 1, .int 2], .int 10, .func adding] ⟨rfl, placed, by cbv⟩ 7 .synthetic .synthetic
    ⟨{}, ({} : Options)⟩ (.start {} {} .quiet none)).2 rfl
  have value : (invoke 8 ((FuncItem.ofBuiltin .foldLeft).run {}).1
      [.seq [.int 1, .int 2], .int 10, .func adding] .synthetic ⟨{}, ({} : Options)⟩
      (.start {} {} .quiet none)).1 = .ok (.ok (.int 13)) := by cbv
  exact ⟨m, t, made, same.fst_of_value value⟩

end Run

end QueryFunctions
