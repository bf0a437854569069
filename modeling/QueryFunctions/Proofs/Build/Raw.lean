import QueryFunctions.Proofs.Expr.Nodes
import QueryFunctions.Proofs.Registry.Settlement
import QueryFunctions.Proofs.Scope.Sound

/-! Code as the builder makes it, before anything is compiled: which variables it refers to, which
functions it mentions, and how closures and literals look. Such code meets every standard that
knows the functions it mentions, if its closures update no more than they say. -/
namespace QueryFunctions

namespace Scope

/-- A scope that is laid out, with variables that were drawn from the supply. -/
structure Proper (s : Scope) (supply : Supply) : Prop where
  laid : s.LaidOut
  fresh : s.FreshFor supply

theorem Proper.mono {s : Scope} {supply supply' : Supply} (h : s.Proper supply)
    (le : supply.nextVar ≤ supply'.nextVar) : s.Proper supply' :=
  ⟨h.laid, fun p mem => Nat.lt_of_lt_of_le (h.fresh p mem) le⟩

end Scope

/-- Raw code whose variables are those of a scope. -/
inductive Expr.Raw (r : Registry) (supply : Supply) : Scope → Expr → Prop
  | value {scope v} : (∀ d, v.Meets d) → Raw r supply scope (.value v)
  | var {scope ref} : (ref.id, ref.slot) ∈ scope.layout → Raw r supply scope (.var ref)
  | focus {scope span} : Raw r supply scope (.focus span)
  | error {scope e} : Raw r supply scope (.error e)
  | letIn {scope id slot bound body} : (id, slot) ∈ scope.layout → Raw r supply scope bound →
    Raw r supply scope body → Raw r supply scope (.letIn id slot bound body)
  | branch {scope cond yes no span} : Raw r supply scope cond → Raw r supply scope yes →
    Raw r supply scope no → Raw r supply scope (.branch cond yes no span)
  | arith {scope op lhs rhs span} : Raw r supply scope lhs → Raw r supply scope rhs →
    Raw r supply scope (.arith op lhs rhs span)
  | compare {scope op lhs rhs span} : Raw r supply scope lhs → Raw r supply scope rhs →
    Raw r supply scope (.compare op lhs rhs span)
  | seq {scope items} : (∀ e ∈ items, Raw r supply scope e) → Raw r supply scope (.seq items)
  | treat {scope e type span} : Raw r supply scope e → Raw r supply scope (.treat e type span)
  | builtin {scope b args span} : (∀ e ∈ args, Raw r supply scope e) →
    Raw r supply scope (.builtin b args span)
  | closure {scope} {c : Closure} : c.compiled = false → c.scope.Proper supply →
    (∀ p ∈ c.captures, Raw r supply scope p.2) → Raw r supply c.scope c.body →
    Raw r supply scope (.closure c)
  | literal {scope} {site : LiteralSite} {c : Closure} {inner : CallSite} {refs : List VarRef} :
    r.Mentions site.target → c.compiled = false → c.captures = [] → c.scope.Proper supply →
    inner.target = site.target → c.body = .call inner (refs.map .var) →
    Raw r supply scope (.literal site c)
  | partialApply {scope site target args} : Raw r supply scope target →
    (∀ e ∈ args, Raw r supply scope e) → Raw r supply scope (.partialApply site target args)
  | call {scope} {site : CallSite} {args} : r.Mentions site.target →
    (∀ e ∈ args, Raw r supply scope e) → Raw r supply scope (.call site args)
  | dynamicCall {scope site callee args} : Raw r supply scope callee →
    (∀ e ∈ args, Raw r supply scope e) → Raw r supply scope (.dynamicCall site callee args)

theorem anyUpdates_of_mem {isUpdating : FuncId → Bool} {es : List Expr} {e : Expr} (mem : e ∈ es)
    (updates : e.updates isUpdating = true) : anyUpdates isUpdating es = true := by
  induction es with
  | nil => cases mem
  | cons first es ih =>
    rw [anyUpdates, Bool.or_eq_true]
    rcases List.mem_cons.1 mem with rfl | mem
    · exact .inl updates
    · exact .inr (ih mem)

theorem anyUpdates_refs (isUpdating : FuncId → Bool) (refs : List VarRef) :
    anyUpdates isUpdating (refs.map .var) = false := by
  induction refs with
  | nil => rfl
  | cons ref refs ih =>
    rw [List.map_cons, anyUpdates, ih]
    rfl

theorem anySupplyUpdates_of_mem {isUpdating : FuncId → Bool} {es : List (VarId × Expr)}
    {p : VarId × Expr} (mem : p ∈ es) (updates : p.2.updates isUpdating = true) :
    anySupplyUpdates isUpdating es = true := by
  induction es with
  | nil => cases mem
  | cons first es ih =>
    rw [anySupplyUpdates, Bool.or_eq_true]
    rcases List.mem_cons.1 mem with rfl | mem
    · exact .inl updates
    · exact .inr (ih mem)

theorem Closure.updates_eq (c : Closure) (isUpdating : FuncId → Bool) :
    c.updates isUpdating = anySupplyUpdates isUpdating c.captures := by
  cases c
  rw [Closure.updates]

/-- Every closure in the code is annotated if its body updates. -/
def Expr.Declares (isUpdating : FuncId → Bool) (e : Expr) : Prop :=
  ∀ c, Expr.closure c ∈ e.nodes → c.body.updates isUpdating = true → c.annotations.updating = true

theorem Expr.Declares.part {isUpdating : FuncId → Bool} {e p : Expr} (h : e.Declares isUpdating)
    (mem : p ∈ e.parts) : p.Declares isUpdating :=
  fun c hc => h c (Expr.nodes_subset_of_mem_parts mem hc)

namespace Allowance

def ofRaw (d : Standard) (scope : Scope) (updates : Bool) : Allowance :=
  { ofBody d true scope with updates := d.annotated → updates = true }

theorem ofRaw_le {d : Standard} {scope : Scope} {updates more : Bool}
    (h : updates = true → more = true) : ofRaw d scope updates ≤ ofRaw d scope more :=
  ⟨fun upd demanded => h (upd demanded), fun h => h, fun h => h, fun h => h, fun h => h⟩

end Allowance

namespace Expr

variable {r : Registry} {supply : Supply} {scope : Scope} {e : Expr} {d : Standard}

theorem listMeets_raw {es : List Expr} {more : Bool}
    (declares : d.annotated → ∀ e ∈ es, e.Declares d.isUpdating)
    (more_of : anyUpdates d.isUpdating es = true → more = true)
    (h : ∀ e ∈ es, (d.annotated → e.Declares d.isUpdating) →
      e.Meets d false (.ofRaw d scope (e.updates d.isUpdating))) :
    listMeets d false (.ofRaw d scope more) es := by
  rw [listMeets_iff]
  intro e mem
  refine (h e mem fun demanded => declares demanded e mem).mono (Allowance.ofRaw_le fun updates => ?_)
  exact more_of (anyUpdates_of_mem mem updates)

theorem Raw.meets (h : e.Raw r supply scope) (known : ∀ id, r.Mentions id → d.mentioned id)
    (declares : d.annotated → e.Declares d.isUpdating) :
    e.Meets d false (.ofRaw d scope (e.updates d.isUpdating)) := by
  induction h with
  | value hv =>
    rw [Expr.Meets]
    exact hv d
  | var | focus | error => simp only [Expr.Meets]
  | letIn mem _ _ hbound hbody =>
    have bound := hbound fun h => (declares h).part (by simp [parts])
    have body := hbody fun h => (declares h).part (by simp [parts])
    rw [Expr.Meets, Expr.updates]
    refine ⟨trivial, fun _ => ?_, bound.mono (Allowance.ofRaw_le fun h => by simp [h]),
      body.mono (Allowance.ofRaw_le fun h => by simp [h])⟩
    exact Scope.isSome_find?_iff.2 (List.mem_map.2 ⟨_, mem, rfl⟩)
  | branch _ _ _ hcond hyes hno =>
    have cond := hcond fun h => (declares h).part (by simp [parts])
    have yes := hyes fun h => (declares h).part (by simp [parts])
    have no := hno fun h => (declares h).part (by simp [parts])
    rw [Expr.Meets, Expr.updates]
    exact ⟨cond.mono (Allowance.ofRaw_le fun h => by simp [h]),
      yes.mono (Allowance.ofRaw_le fun h => by simp [h]),
      no.mono (Allowance.ofRaw_le fun h => by simp [h])⟩
  | arith _ _ hl hr | compare _ _ hl hr =>
    have lhs := hl fun h => (declares h).part (by simp [parts])
    have rhs := hr fun h => (declares h).part (by simp [parts])
    rw [Expr.Meets, Expr.updates]
    exact ⟨lhs.mono (Allowance.ofRaw_le fun h => by simp [h]),
      rhs.mono (Allowance.ofRaw_le fun h => by simp [h])⟩
  | seq _ hitems =>
    rw [Expr.Meets, Expr.updates]
    exact listMeets_raw (fun h e mem => (declares h).part mem) (fun h => h) hitems
  | treat _ he =>
    have inner := he fun h => (declares h).part (by simp [parts])
    rw [Expr.Meets, Expr.updates]
    exact inner
  | builtin _ hargs =>
    rw [Expr.Meets, Expr.updates]
    refine ⟨fun upd _ => by simp [upd], fun _ => trivial, ?_⟩
    exact listMeets_raw (fun h e mem => (declares h).part mem) (fun h => by simp [h]) hargs
  | @closure scope c raw _ _ _ hcaptures hbody =>
    have annotated := fun h => declares h c (mem_nodes_self _)
    rw [Expr.Meets, Expr.updates, Closure.updates_eq, Closure.meets_iff]
    refine ⟨raw, fun p mem => ?_, ?_⟩
    · have part : p.2 ∈ (Expr.closure c).parts := List.mem_append_left _ (List.mem_map_of_mem mem)
      have supplied := hcaptures p mem fun h => (declares h).part part
      exact supplied.mono (Allowance.ofRaw_le (anySupplyUpdates_of_mem mem))
    · have body := hbody fun h => (declares h).part (by simp [parts])
      exact body.mono ⟨fun upd h => annotated h (upd h), fun h => h, fun h => h, fun h => h,
        fun h => h⟩
  | @literal scope site c inner refs named raw none _ same body =>
    rw [Expr.Meets, Closure.meets_iff, none, body]
    have refsMeet : ∀ a : Allowance, listMeets d false a (refs.map .var) := by
      intro a
      rw [listMeets_iff]
      intro e mem
      obtain ⟨ref, -, rfl⟩ := List.mem_map.1 mem
      simp only [Expr.Meets]
    refine ⟨known _ named, rfl, fun _ isUpdating => ?_, raw, by simp, ?_⟩
    · rw [body, Expr.updates, anyUpdates_refs, same, Bool.or_false]
    · rw [Expr.Meets, same]
      exact ⟨known _ named, fun upd => ⟨fun _ => by simp [upd], by simp⟩,
        fun _ => ⟨trivial, False.elim⟩, refsMeet _⟩
  | partialApply _ _ htarget hargs =>
    have target := htarget fun h => (declares h).part (by simp [parts])
    rw [Expr.Meets, Expr.updates]
    refine ⟨target.mono (Allowance.ofRaw_le fun h => by simp [h]), ?_⟩
    exact listMeets_raw (fun h e mem => (declares h).part (by simp [parts, mem]))
      (fun h => by simp [h]) hargs
  | call named _ hargs =>
    rw [Expr.Meets, Expr.updates]
    refine ⟨known _ named, fun upd => ⟨fun _ => by simp [upd], by simp⟩,
      fun _ => ⟨trivial, False.elim⟩, ?_⟩
    exact listMeets_raw (fun h e mem => (declares h).part mem) (fun h => by simp [h]) hargs
  | dynamicCall _ _ hcallee hargs =>
    have callee := hcallee fun h => (declares h).part (by simp [parts])
    rw [Expr.Meets, Expr.updates]
    refine ⟨fun upd _ => by simp [upd], callee.mono (Allowance.ofRaw_le fun h => by simp [h]), ?_⟩
    exact listMeets_raw (fun h e mem => (declares h).part (by simp [parts, mem]))
      (fun h => by simp [h]) hargs

def closure? : Expr → Option Closure
  | .closure c | .literal _ c => some c
  | _ => none

theorem closure?_of_mem_call {site : CallSite} {refs : List VarRef} {n : Expr}
    (mem : n ∈ (Expr.call site (refs.map .var)).nodes) : n.closure? = none := by
  have plain (ref : VarRef) : (Expr.var ref).nodes = [.var ref] := nodes_eq _
  rw [nodes_eq, parts, List.flatMap_map, List.mem_cons, List.mem_flatMap] at mem
  rcases mem with rfl | ⟨ref, -, mem⟩
  · rfl
  · rw [plain, List.mem_singleton] at mem
    subst mem
    rfl

theorem Raw.part (h : e.Raw r supply scope) {p : Expr} (mem : p ∈ e.parts) :
    (∃ scope, p.Raw r supply scope) ∨ ∀ n ∈ p.nodes, n.closure? = none := by
  cases h with
  | value | var | focus | error => cases mem
  | letIn _ hbound hbody =>
    obtain rfl | rfl : p = _ ∨ p = _ := by simpa [parts] using mem
    · exact .inl ⟨_, hbound⟩
    · exact .inl ⟨_, hbody⟩
  | branch hcond hyes hno =>
    obtain rfl | rfl | rfl : p = _ ∨ p = _ ∨ p = _ := by simpa [parts] using mem
    · exact .inl ⟨_, hcond⟩
    · exact .inl ⟨_, hyes⟩
    · exact .inl ⟨_, hno⟩
  | arith hl hr | compare hl hr =>
    obtain rfl | rfl : p = _ ∨ p = _ := by simpa [parts] using mem
    · exact .inl ⟨_, hl⟩
    · exact .inl ⟨_, hr⟩
  | treat he => exact .inl ⟨_, List.mem_singleton.1 mem ▸ he⟩
  | seq hitems | builtin hitems | call _ hitems => exact .inl ⟨_, hitems p mem⟩
  | closure _ _ hcaptures hbody =>
    rcases List.mem_append.1 mem with mem | mem
    · obtain ⟨capture, among, rfl⟩ := List.mem_map.1 mem
      exact .inl ⟨_, hcaptures capture among⟩
    · exact .inl ⟨_, List.mem_singleton.1 mem ▸ hbody⟩
  | literal _ _ none _ _ body =>
    rw [parts, none, body, List.map_nil, List.nil_append, List.mem_singleton] at mem
    exact .inr fun n hn => closure?_of_mem_call (mem ▸ hn)
  | partialApply htarget hargs | dynamicCall htarget hargs =>
    rcases List.mem_cons.1 mem with rfl | mem
    · exact .inl ⟨_, htarget⟩
    · exact .inl ⟨_, hargs p mem⟩

theorem Raw.proper_of_closure? (h : e.Raw r supply scope) {c : Closure}
    (made : e.closure? = some c) : c.scope.Proper supply := by
  cases h with
  | closure _ proper | literal _ _ _ proper =>
    cases made
    exact proper
  | _ => cases made

theorem Raw.proper_of_mem_nodes (h : e.Raw r supply scope) {n : Expr} (mem : n ∈ e.nodes)
    {c : Closure} (made : n.closure? = some c) : c.scope.Proper supply := by
  have handed : ∀ e : Expr, ((∃ scope, e.Raw r supply scope) ∨ ∀ n ∈ e.nodes, n.closure? = none) →
      ∀ p ∈ e.parts, (∃ scope, p.Raw r supply scope) ∨ ∀ n ∈ p.nodes, n.closure? = none := by
    rintro e (⟨scope, raw⟩ | plain) p mem
    · exact raw.part mem
    · exact .inr fun n hn => plain n (nodes_subset_of_mem_parts mem hn)
  rcases of_mem_nodes handed e (.inl ⟨scope, h⟩) mem with ⟨scope, raw⟩ | plain
  · exact raw.proper_of_closure? made
  · rw [plain n n.mem_nodes_self] at made
    cases made

end Expr

structure Entry.Raw (r : Registry) (supply : Supply) (e : Entry) : Prop where
  pending : e.stage = .pending
  scope : e.scope.Proper supply
  body : ∀ body, e.body = some body → body.Raw r supply e.scope

def Registry.Raw (r : Registry) (supply : Supply) : Prop :=
  ∀ id e, r.find? id = some e → e.Raw r supply

end QueryFunctions
