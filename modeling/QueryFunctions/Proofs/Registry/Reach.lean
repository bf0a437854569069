import Mathlib.Logic.Equiv.Basic
import Mathlib.Logic.Function.Iterate
import Mathlib.Logic.Relation
import QueryFunctions.Proofs.Registry.Propagation
import QueryFunctions.Proofs.Registry.Retargeting

/-! What propagation comes to. Passes end because each turns a flag on; what is on in the end is what
some function had that can be reached along calls, and nothing else; and the order of the functions in
the registry has no part in it. -/
namespace QueryFunctions

namespace Registry

/-- The caller is compiled, and its body has a call of the callee. -/
def BodyCalls (r : Registry) (caller callee : FuncId) : Prop :=
  ∃ e body site args, r.find? caller = some e ∧ e.stage = .compiled ∧ e.body = some body ∧
    Expr.call site args ∈ body.nodes ∧ site.target = callee

theorem mem_callEdges_iff {r : Registry} {id : FuncId} {callees : List FuncId} :
    (id, callees) ∈ r.callEdges ↔ ∃ e body, r.find? id = some e ∧ e.stage = .compiled ∧
      e.body = some body ∧ body.callees = callees := by
  constructor
  · intro mem
    obtain ⟨⟨e, index⟩, at_index, edge⟩ := List.mem_filterMap.1 mem
    dsimp only at edge
    split at edge
    · rename_i compiled
      obtain ⟨body, present, same⟩ := Option.map_eq_some_iff.1 edge
      cases same
      exact ⟨e, body, List.mem_zipIdx_iff_getElem?.1 at_index, compiled, present, rfl⟩
    · cases edge
  · rintro ⟨e, body, found, compiled, present, rfl⟩
    exact mem_callEdges found compiled present

theorem bodyCalls_iff {r : Registry} {caller callee : FuncId} :
    r.BodyCalls caller callee ↔ ∃ callees, (caller, callees) ∈ r.callEdges ∧ callee ∈ callees := by
  constructor
  · rintro ⟨e, body, site, args, found, compiled, present, mem, rfl⟩
    exact ⟨_, mem_callEdges found compiled present, Expr.mem_callees mem⟩
  · rintro ⟨callees, edge, mem⟩
    obtain ⟨e, body, found, compiled, present, rfl⟩ := mem_callEdges_iff.1 edge
    obtain ⟨n, node, target⟩ := List.mem_filterMap.1 (List.mem_eraseDups.1 mem)
    cases n with
    | call site args =>
      exact ⟨e, body, site, args, found, compiled, present, node, Option.some.inj target⟩
    | _ => cases target

section Passes

variable {edges : List (FuncId × List FuncId)} {flags start : List Flags}

theorem saturate_eq_iterate (passes : Nat) (flags : List Flags) :
    ∃ count ≤ allOff flags, (spread edges)^[count] flags = saturate edges passes flags := by
  induction passes generalizing flags with
  | zero => exact ⟨0, Nat.zero_le _, rfl⟩
  | succ passes ih =>
    unfold saturate
    dsimp only
    split
    · exact ⟨0, Nat.zero_le _, rfl⟩
    · rename_i changed
      obtain ⟨count, le, same⟩ := ih (spread edges flags)
      have lt := (flagsGrow_spread edges flags).allOff_lt changed
      exact ⟨count + 1, by omega, by rw [Function.iterate_succ_apply, same]⟩

/-- Whatever is on was on at the start at a function that can be reached. -/
def Stems (calls : FuncId → FuncId → Prop) (start flags : List Flags) : Prop :=
  ∀ flag id, flag ≠ .upd → (flagAt flags id).contains flag = true →
    ∃ source, Relation.ReflTransGen calls id source ∧ (flagAt start source).contains flag = true

variable {calls : FuncId → FuncId → Prop}

theorem stems_spread (stems : Stems calls start flags)
    (along : ∀ edge ∈ edges, ∀ callee ∈ edge.2, calls edge.1 callee) :
    Stems calls start (spread edges flags) := by
  induction edges generalizing flags with
  | nil => exact stems
  | cons edge edges ih =>
    obtain ⟨caller, callees⟩ := edge
    refine ih (fun flag id spreads on => ?_) fun later mem => along later (.tail _ mem)
    rw [flagAt_set] at on
    split at on
    · rename_i here
      obtain rfl : caller = id := by cases caller; cases id; cases here.1; rfl
      rcases (contains_gather spreads).1 on with own | ⟨callee, mem, on⟩
      · exact stems flag caller spreads own
      · obtain ⟨source, path, on⟩ := stems flag callee spreads on
        exact ⟨source, .head (along _ (.head _) callee mem) path, on⟩
    · exact stems flag id spreads on

theorem stems_saturate (passes : Nat) (stems : Stems calls start flags)
    (along : ∀ edge ∈ edges, ∀ callee ∈ edge.2, calls edge.1 callee) :
    Stems calls start (saturate edges passes flags) := by
  induction passes generalizing flags with
  | zero => exact stems
  | succ passes ih =>
    unfold saturate
    dsimp only
    split
    · exact stems
    · exact ih (stems_spread stems along)

end Passes

theorem flagAt_map (r : Registry) (id : FuncId) :
    flagAt (r.entries.map (·.flags)) id = ((r.find? id).map (·.flags)).getD {} := by
  unfold flagAt find?
  rw [List.getElem?_map]

theorem contains_propagatedFlags {r : Registry} {id : FuncId} {flag : Flag} (spreads : flag ≠ .upd) :
    (flagAt r.propagatedFlags id).contains flag = true ↔
      ∃ source e, Relation.ReflTransGen r.BodyCalls id source ∧ r.find? source = some e ∧
        e.flags.contains flag = true := by
  constructor
  · intro on
    have along : ∀ edge ∈ r.callEdges, ∀ callee ∈ edge.2, r.BodyCalls edge.1 callee :=
      fun edge mem callee among => bodyCalls_iff.2 ⟨edge.2, mem, among⟩
    have none_yet : Stems r.BodyCalls (r.entries.map (·.flags)) (r.entries.map (·.flags)) :=
      fun flag id _ on => ⟨id, .refl, on⟩
    obtain ⟨source, path, on⟩ := stems_saturate _ none_yet along flag id spreads on
    rw [flagAt_map] at on
    cases found : r.find? source with
    | none =>
      rw [found] at on
      cases flag <;> cases on
    | some e => exact ⟨source, e, path, found, by simpa [found] using on⟩
  · rintro ⟨source, e, path, found, on⟩
    induction path using Relation.ReflTransGen.head_induction_on with
    | refl =>
      refine ((flagsGrow_propagatedFlags r).each source).contains ?_
      simpa [flagAt_map, found] using on
    | @head caller callee call _ ih =>
      obtain ⟨callees, edge, mem⟩ := bodyCalls_iff.1 call
      obtain ⟨e, -, here, -⟩ := mem_callEdges_iff.1 edge
      have bound : caller.index < r.propagatedFlags.length := by
        rw [(flagsGrow_propagatedFlags r).length, List.length_map]
        exact (List.getElem?_eq_some_iff.1 here).1
      exact contains_of_spread_eq spreads r.spread_propagatedFlags edge mem bound ih

theorem getElem?_propagatedFlags (r : Registry) (id : FuncId) :
    r.propagatedFlags[id.index]? = (r.find? id).map fun _ => flagAt r.propagatedFlags id := by
  have size : r.propagatedFlags.length = r.entries.length := by
    rw [(flagsGrow_propagatedFlags r).length, List.length_map]
  unfold find? flagAt
  by_cases bound : id.index < r.entries.length
  · simp [bound, size]
  · rw [List.getElem?_eq_none (by omega), List.getElem?_eq_none (by omega)]
    rfl

theorem contains_of_call {r : Registry} {id : FuncId} {e : Entry} {body : Expr} {site : CallSite}
    {args : List Expr} (found : r.propagateFlags.find? id = some e) (compiled : e.stage = .compiled)
    (present : e.body = some body) (mem : Expr.call site args ∈ body.nodes) {callee : Entry}
    (target : r.propagateFlags.find? site.target = some callee) {flag : Flag}
    (spreads : flag ≠ .upd) (on : callee.flags.contains flag = true) :
    site.flags.contains flag = true := by
  rw [find?_propagateFlags] at found target
  obtain ⟨old, here, rfl⟩ := Option.map_eq_some_iff.1 found
  obtain ⟨oldCallee, there, rfl⟩ := Option.map_eq_some_iff.1 target
  dsimp only at compiled present on
  cases kept : old.body with
  | none => simp [kept] at present
  | some raw =>
    have among : (r.callEdges.map Prod.fst).contains id = true :=
      List.contains_iff_mem.2 (List.mem_map.2 ⟨_, mem_callEdges here compiled kept, rfl⟩)
    rw [if_pos among, kept, Option.map_some] at present
    cases present
    rw [Expr.refreshCalls, Expr.nodes_mapSites] at mem
    obtain ⟨n, -, same⟩ := List.mem_map.1 mem
    cases n with
    | call old args =>
      obtain ⟨rfl, -⟩ := Expr.call.inj same
      rw [CallSite.target_refresh] at there on
      unfold CallSite.refresh
      simp only [getElem?_propagatedFlags, there, Option.map_some]
      rw [Flags.contains_withCallee spreads, on, Bool.or_true]
    | _ => cases same

/-- `r'` has the functions of `r` in another order: what has the place `id` in `r` has the place
`σ id` in `r'`. -/
def Reorders (σ : Equiv.Perm FuncId) (r r' : Registry) : Prop :=
  ∀ id, r'.find? (σ id) = (r.find? id).map (·.retarget σ)

section

variable {σ : Equiv.Perm FuncId} {r r' : Registry}

theorem Reorders.bodyCalls (reordered : Reorders σ r r') {caller callee : FuncId} :
    r'.BodyCalls (σ caller) callee ↔ ∃ old, callee = σ old ∧ r.BodyCalls caller old := by
  unfold BodyCalls
  rw [reordered]
  constructor
  · rintro ⟨e, body, site, args, found, compiled, present, mem, rfl⟩
    obtain ⟨old, here, rfl⟩ := Option.map_eq_some_iff.1 found
    obtain ⟨raw, kept, rfl⟩ := Option.map_eq_some_iff.1 present
    rw [Expr.nodes_retarget] at mem
    obtain ⟨n, node, same⟩ := List.mem_map.1 mem
    cases n with
    | call site args =>
      obtain ⟨rfl, -⟩ := Expr.call.inj same
      exact ⟨site.target, rfl, old, raw, site, args, here, compiled, kept, node, rfl⟩
    | _ => cases same
  · rintro ⟨_, rfl, e, body, site, args, found, compiled, present, mem, rfl⟩
    refine ⟨e.retarget σ, body.retarget σ, { site with target := σ site.target },
      retargetList σ args, by rw [found]; rfl, compiled, ?_, ?_, rfl⟩
    · rw [Entry.retarget, present]
      rfl
    · rw [Expr.nodes_retarget]
      exact List.mem_map.2 ⟨_, mem, rfl⟩

theorem Reorders.reaches (reordered : Reorders σ r r') {id source : FuncId} :
    Relation.ReflTransGen r'.BodyCalls (σ id) source ↔
      ∃ old, source = σ old ∧ Relation.ReflTransGen r.BodyCalls id old := by
  constructor
  · intro path
    induction path with
    | refl => exact ⟨id, rfl, .refl⟩
    | tail _ call ih =>
      obtain ⟨old, rfl, path⟩ := ih
      obtain ⟨next, rfl, step⟩ := reordered.bodyCalls.1 call
      exact ⟨next, rfl, path.tail step⟩
  · rintro ⟨old, rfl, path⟩
    exact path.lift σ fun _ next call => reordered.bodyCalls.2 ⟨next, rfl, call⟩

theorem upd_propagatedFlags (r : Registry) (id : FuncId) :
    (flagAt r.propagatedFlags id).upd = (((r.find? id).map Entry.flags).getD {}).upd := by
  rw [← flagAt_map]
  exact ((flagsGrow_propagatedFlags r).each id).upd

theorem Reorders.flagAt_propagatedFlags (reordered : Reorders σ r r') (id : FuncId) :
    flagAt r'.propagatedFlags (σ id) = flagAt r.propagatedFlags id := by
  have same {flag : Flag} (spreads : flag ≠ .upd) :
      (flagAt r'.propagatedFlags (σ id)).contains flag =
        (flagAt r.propagatedFlags id).contains flag := by
    rw [Bool.eq_iff_iff, contains_propagatedFlags spreads, contains_propagatedFlags spreads]
    simp only [reordered.reaches]
    constructor
    · rintro ⟨_, e, ⟨old, rfl, path⟩, found, on⟩
      rw [reordered] at found
      obtain ⟨e, here, rfl⟩ := Option.map_eq_some_iff.1 found
      exact ⟨old, e, path, here, on⟩
    · rintro ⟨old, e, path, found, on⟩
      exact ⟨σ old, e.retarget σ, ⟨old, rfl, path⟩, by rw [reordered, found]; rfl, on⟩
  have upd : (flagAt r'.propagatedFlags (σ id)).upd = (flagAt r.propagatedFlags id).upd := by
    rw [upd_propagatedFlags, upd_propagatedFlags, reordered, Option.map_map]
    rfl
  have ndt := same (by decide : Flag.ndt ≠ .upd)
  have ctx := same (by decide : Flag.ctx ≠ .upd)
  revert upd ndt ctx
  cases flagAt r'.propagatedFlags (σ id)
  cases flagAt r.propagatedFlags id
  rintro rfl rfl rfl
  rfl

theorem contains_callEdges {r : Registry} {id : FuncId} :
    (r.callEdges.map Prod.fst).contains id = true ↔
      ∃ e body, r.find? id = some e ∧ e.stage = .compiled ∧ e.body = some body := by
  rw [List.contains_iff_mem, List.mem_map]
  constructor
  · rintro ⟨⟨id, callees⟩, edge, rfl⟩
    obtain ⟨e, body, found, compiled, present, -⟩ := mem_callEdges_iff.1 edge
    exact ⟨e, body, found, compiled, present⟩
  · rintro ⟨e, body, found, compiled, present⟩
    exact ⟨_, mem_callEdges found compiled present, rfl⟩

theorem Reorders.propagateFlags (reordered : Reorders σ r r') :
    Reorders σ r.propagateFlags r'.propagateFlags := by
  intro id
  rw [find?_propagateFlags, find?_propagateFlags, reordered]
  cases found : r.find? id with
  | none => rfl
  | some e =>
    have known : (fun id : FuncId => r'.propagatedFlags[id.index]?) ∘ σ =
        fun id => r.propagatedFlags[id.index]? := by
      funext callee
      simp only [Function.comp_apply, getElem?_propagatedFlags, reordered callee,
        reordered.flagAt_propagatedFlags, Option.map_map]
      rfl
    have among : (r'.callEdges.map Prod.fst).contains (σ id) =
        (r.callEdges.map Prod.fst).contains id := by
      rw [Bool.eq_iff_iff, contains_callEdges, contains_callEdges, reordered, found]
      simp [Entry.retarget]
    have refreshed (body : Expr) :
        (body.retarget σ).refreshCalls (fun id => r'.propagatedFlags[id.index]?) =
          (body.refreshCalls fun id => r.propagatedFlags[id.index]?).retarget σ := by
      rw [Expr.refreshCalls_retarget, known]
    simp only [Option.map_some, Entry.retarget, reordered.flagAt_propagatedFlags, among]
    split <;> simp [Function.comp_def, refreshed]

/-- Propagation comes to an end, and then exactly what can be reached along calls has been spread. -/
theorem propagation_exact (r : Registry) :
    -- A further pass changes nothing, and there were no more passes than flags to turn on.
    ((∃ passes ≤ 2 * r.entries.length,
        (spread r.callEdges)^[passes] (r.entries.map (·.flags)) = r.propagatedFlags) ∧
      spread r.callEdges r.propagatedFlags = r.propagatedFlags) ∧
    (∀ id e, r.find? id = some e → ∃ e', r.propagateFlags.find? id = some e' ∧
      e'.flags.upd = e.flags.upd ∧ ∀ flag ≠ .upd, e'.flags.contains flag = true ↔
        ∃ source origin, Relation.ReflTransGen r.BodyCalls id source ∧
          r.find? source = some origin ∧ origin.flags.contains flag = true) ∧
    (∀ id e body, r.propagateFlags.find? id = some e → e.stage = .compiled → e.body = some body →
      ∀ site args, Expr.call site args ∈ body.nodes →
        ∀ callee, r.propagateFlags.find? site.target = some callee →
          ∀ flag ≠ .upd, callee.flags.contains flag = true → site.flags.contains flag = true) ∧
    ∀ σ r', Reorders σ r r' → Reorders σ r.propagateFlags r'.propagateFlags := by
  refine ⟨⟨?_, r.spread_propagatedFlags⟩, fun id e found => ?_, ?_, fun _ _ => Reorders.propagateFlags⟩
  · obtain ⟨passes, le, same⟩ := saturate_eq_iterate (2 * r.entries.length + 1)
      (r.entries.map (·.flags))
    have bound := allOff_le (r.entries.map (·.flags))
    rw [List.length_map] at bound
    exact ⟨passes, by omega, same⟩
  · refine ⟨_, by rw [find?_propagateFlags, found]; rfl, ?_, fun flag spreads => ?_⟩
    · dsimp only
      rw [upd_propagatedFlags, found]
      rfl
    · exact contains_propagatedFlags spreads
  · intro id e body found compiled present site args mem callee target flag spreads on
    exact contains_of_call found compiled present mem target spreads on

end

/-- Two functions that call each other, the second of which asks for the focus. -/
def partners (first second : FuncId) : Entry × Entry :=
  let call (name : String) (target : FuncId) : Expr :=
    .call ⟨name, target, false, .item, {}, .synthetic⟩ []
  let entry (name : String) (body : Expr) (flags : Flags) : Entry :=
    { name, arity := 0, body := some body, defined := true, stage := .compiled, flags }
  (entry "f" (call "g" second) {},
    entry "g" (.seq [call "f" first, .focus .synthetic]) { ctx := true })

def partnersInOrder : Registry where
  entries := [(partners ⟨0⟩ ⟨1⟩).1, (partners ⟨0⟩ ⟨1⟩).2]
  index := [(("g", 0), ⟨1⟩), (("f", 0), ⟨0⟩)]

def partnersSwapped : Registry where
  entries := [(partners ⟨1⟩ ⟨0⟩).2, (partners ⟨1⟩ ⟨0⟩).1]
  index := [(("f", 0), ⟨1⟩), (("g", 0), ⟨0⟩)]

theorem reorders_partners : Reorders (Equiv.swap ⟨0⟩ ⟨1⟩) partnersInOrder partnersSwapped := by
  rintro ⟨index⟩
  match index with
  | 0 => rfl
  | 1 => rfl
  | index + 2 =>
    rw [Equiv.swap_apply_of_ne_of_ne (by simp) (by simp)]
    rfl

/-- Both depend on the focus in the end, whichever comes first. -/
theorem propagation_exact_swapping :
    partnersInOrder.propagateFlags.entries.map (·.flags.ctx) = [true, true] ∧
      Reorders (Equiv.swap ⟨0⟩ ⟨1⟩) partnersInOrder.propagateFlags
        partnersSwapped.propagateFlags :=
  ⟨by decide, (propagation_exact partnersInOrder).2.2.2 _ _ reorders_partners⟩

end Registry

end QueryFunctions
