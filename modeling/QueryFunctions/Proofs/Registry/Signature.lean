import QueryFunctions.Compile.Function
import QueryFunctions.Proofs.Law.Basic
import QueryFunctions.Proofs.Recursion.Names
import QueryFunctions.Proofs.Scope.Layout
import QueryFunctions.Proofs.Scope.Sound
import QueryFunctions.Run.Evaluation
import QueryFunctions.Surface.Basic

/-! Signatures of registered functions and of the closures and items that stand for them: what the
function is called, what its parameters are called and declared as, its declared result type and its
annotations. A closure hands its signature on to its copies and to the items that are made from it. -/
namespace QueryFunctions

def numberedLabels (first count : Nat) : List (String × Option SeqType) :=
  (List.range' first count).map fun i => (s!"arg{i + 1}", none)

namespace Signature

def numbered (σ : Signature) : Signature :=
  { σ with params := numberedLabels 0 σ.params.length }

end Signature

def Entry.signature (e : Entry) : Signature :=
  ⟨some e.name, e.scope.labels e.params, e.declared, e.annotations⟩

/-- The item has the name, the parameters and the annotations of the signature, and its result type if
there is one. -/
structure FuncItem.Bears (σ : Signature) (f : FuncItem) : Prop where
  name : f.name = σ.name
  named : ∀ i p, σ.params[i]? = some p → f.paramName? i = some p.1
  params : f.type.params = σ.params.map fun p => p.2.getD .item
  returns : ∀ type, σ.returns = some type → f.type.ret = type
  updating : f.type.updating = σ.annotations.updating
  annotations : f.annotations = σ.annotations

theorem Scope.Sound.labels_all {s : Scope} {supply : Supply} (sound : s.Sound supply) :
    s.labels (s.vars.map (·.id)) = s.vars.map fun v => (v.name, v.declared) := by
  unfold labels
  rw [List.filterMap_map, ← List.filterMap_eq_map]
  refine List.filterMap_congr fun v mem => ?_
  rw [Function.comp, sound.find?_of_mem mem]
  rfl

theorem Scope.Sound.labels_renamed {s : Scope} {supply : Supply} (sound : s.Sound supply)
    (start : Supply) {ids : List VarId} (known : ∀ id ∈ ids, (s.find? id).isSome = true) :
    Yields (ids.mapM fun id => do return (← (s.copy.run start).1.2.require id).id) fun ids' =>
      (∀ id ∈ ids', ((s.copy.run start).1.1.find? id).isSome = true) ∧
        (s.copy.run start).1.1.labels ids' = s.labels ids := by
  induction ids with
  | nil => exact Yields.pure ⟨nofun, rfl⟩
  | cons id ids ih =>
    rw [List.mapM_cons]
    have one : Yields (do return (← (s.copy.run start).1.2.require id).id : Supplied VarId) fun id' =>
        ∃ v w, (s.copy.run start).1.1.find? id' = some v ∧ s.find? id = some w ∧ v.name = w.name ∧
          v.declared = w.declared := by
      refine Yields.bind (Yields.ofExcept fun v required => ?_) fun v found => Yields.pure found
      obtain ⟨w, old, new, same⟩ := sound.find?_copy (Renaming.require_eq_ok_iff.1 required)
      exact ⟨v, w, new, old, same⟩
    refine Yields.bind one fun id' first => ?_
    refine Yields.bind (ih fun x mem => known x (by simp [mem])) fun ids' rest => Yields.pure ?_
    obtain ⟨v, w, new, old, name, declared⟩ := first
    refine ⟨List.forall_mem_cons.2 ⟨Option.isSome_iff_exists.2 ⟨v, new⟩, rest.1⟩, ?_⟩
    rw [Scope.labels_cons new, Scope.labels_cons old, rest.2, name, declared]

namespace Closure

def signature (c : Closure) : Signature :=
  ⟨c.name, c.scope.labels c.params, c.declared, c.annotations⟩

/-- The closure has the signature, and its parameters are variables of its scope. -/
structure Bears (σ : Signature) (c : Closure) : Prop where
  signature : c.signature = σ
  known : ∀ id ∈ c.params, (c.scope.find? id).isSome = true

/-- A closure takes over the parameters that a function has to offer, and leaves its other ones as they
are. -/
theorem Bears.adaptTo {c : Closure} {σ : Signature} (h : c.Bears σ) (distinct : c.params.Nodup)
    (target : Entry) :
    (c.adaptTo target).Bears {
      name := σ.name
      params := target.signature.params.take σ.params.length ++
        σ.params.drop target.signature.params.length
      returns := target.declared
      annotations := target.annotations } := by
  obtain ⟨-, inside, labels⟩ := c.scope.labels_relabelAll c.params target.paramVariables distinct h.known
  have offered : target.signature.params =
      target.paramVariables.map fun v => (v.name, v.declared) := List.map_filterMap.symm
  refine ⟨?_, inside⟩
  obtain ⟨rfl, known⟩ := h
  rw [offered, List.length_map, ← List.map_take]
  refine congrArg (fun params => (⟨c.name, params, target.declared, target.annotations⟩ : Signature)) ?_
  have length : c.signature.params.length = c.params.length := Scope.length_labels known
  rw [length]
  exact labels

theorem Bears.retained {c c' : Closure} {σ : Signature} (h : c.Bears σ) (name : c'.name = c.name)
    (params : c'.params = c.params) (declared : c'.declared = c.declared)
    (annotations : c'.annotations = c.annotations) (scope : c'.scope.Retains c.scope) : c'.Bears σ := by
  refine ⟨?_, params ▸ scope.known h.known⟩
  rw [← h.signature, Closure.signature, Closure.signature, name, params, declared, annotations,
    scope.labels_eq h.known]

theorem Bears.toItem {c : Closure} {σ : Signature} (h : c.Bears σ)
    (captured : List (Variable × Value)) (supply : Supply) :
    ((c.toItem captured).run supply).1.Bears σ := by
  obtain ⟨rfl, known⟩ := h
  have labels : c.signature.params = c.paramVariables.map fun v => (v.name, v.declared) :=
    List.map_filterMap.symm
  refine ⟨rfl, fun i p here => ?_, ?_, fun type declared => ?_, rfl, rfl⟩
  · rw [labels, List.getElem?_map] at here
    obtain ⟨v, there, rfl⟩ := Option.map_eq_some_iff.1 here
    change c.paramVariables[i]?.map (·.name) = some v.name
    rw [there]
    rfl
  · have types := congrArg (List.map (·.getD SeqType.item)) (Scope.map_snd_labels known)
    rw [List.map_map, List.map_map] at types
    exact types.symm
  · change c.declared.getD _ = type
    rw [show c.declared = some type from declared]
    rfl

theorem Bears.mapSites {c : Closure} {σ : Signature} (h : c.Bears σ) (f : CallSite → CallSite)
    (g : DynamicSite → DynamicSite) : (c.mapSites f g).Bears σ := by
  cases c
  exact ⟨h.signature, h.known⟩

theorem Bears.copy {c : Closure} {σ : Signature} (h : c.Bears σ) {supply : Supply}
    (sound : c.scope.Sound supply) (outer : Renaming) : Yields (c.copy outer) (·.Bears σ) := by
  obtain ⟨name, params, body, declared, annotations, scope, captures, origin, compiled, span⟩ := c
  obtain ⟨rfl, known⟩ := h
  have copied : Yields (liftSupply scope.copy) fun p => ∃ start, p = (scope.copy.run start).1 :=
    Yields.liftSupply fun start => ⟨(Scope.copied_variables scope.vars start).1, start, rfl⟩
  refine Yields.bind copied fun p same => ?_
  obtain ⟨start, rfl⟩ := same
  refine Yields.bind (sound.labels_renamed start known) fun params' hparams => ?_
  have anywhere (e : Expr) : e.Within fun _ => True := fun _ _ => trivial
  refine Yields.bind (Expr.copy_within body (anywhere body)) fun body' _ => ?_
  refine Yields.bind (copySupplies_within _ captures fun q _ => anywhere q.2) fun captures' _ => ?_
  refine Yields.pure ⟨?_, hparams.1⟩
  exact congrArg (fun params => (⟨name, params, declared, annotations⟩ : Signature)) hparams.2

end Closure

/-- The expression is an item that bears the signature, or a literal that makes one. -/
inductive Expr.Bears (σ : Signature) : Expr → Prop
  | item {f : FuncItem} : f.Bears σ → Bears σ (.value (.func f))
  | literal {site : LiteralSite} {c : Closure} : c.Bears σ → Bears σ (.literal site c)

namespace Expr.Bears

variable {e : Expr} {σ : Signature}

/-- However the expression is evaluated, a value that it gives is an item that bears the signature. -/
theorem evaluate (h : e.Bears σ) {call : Caller} {r : RunSetting} {s t : RunState} {v : Value}
    (run : e.evaluate call r s = (.ok (.ok v), t)) : ∃ f, v = .func f ∧ f.Bears σ := by
  cases h with
  | @item f hf =>
    cases run
    exact ⟨f, rfl, hf⟩
  | @literal site c hc =>
    obtain ⟨f, u, made, last⟩ := Computation.of_bind_ok run
    cases last
    refine ⟨f, rfl, ?_⟩
    obtain ⟨name, params, body, declared, annotations, scope, captures, origin, compiled, span⟩ := c
    obtain ⟨captured, w, -, drawn⟩ := Computation.of_bind_ok made
    cases drawn
    exact hc.toItem captured _

theorem simplify {site : LiteralSite} {c : Closure} (hc : c.Bears σ) (compiled : c.compiled = true)
    (bare : c.captures = []) {budget : Nat} {o : Options} {s t : CompileState}
    (run : (Expr.literal site c).simplify budget o s = (.ok (.ok e), t)) : e.Bears σ := by
  cases budget with
  | zero => cases run
  | succ budget =>
    obtain ⟨e', u, first, last⟩ := Computation.of_bind_ok run
    cases last
    have still : c.propagate (Expr.simplify budget) o s = (.ok (.ok c), s) := by
      unfold Closure.propagate
      rw [bare]
      rfl
    unfold Closure.simplifyWith at first
    rw [compiled, Bool.not_true, if_neg Bool.false_ne_true, Computation.run_bind, still] at first
    dsimp only at first
    split at first
    · obtain ⟨f, w, drawn, last⟩ := Computation.of_bind_ok first
      cases last
      cases drawn
      exact .item (hc.toItem [] _)
    · cases first
      exact .literal hc

theorem mapSites (h : e.Bears σ) (f : CallSite → CallSite) (g : DynamicSite → DynamicSite) :
    (e.mapSites f g).Bears σ := by
  cases h with
  | item hf => exact .item hf
  | literal hc => exact .literal (hc.mapSites f g)

theorem copy (h : e.Bears σ) (sound : ∀ site c, e = .literal site c → ∃ supply, c.scope.Sound supply)
    (table : Renaming) : Yields (e.copy table) (·.Bears σ) := by
  cases h with
  | item hf => exact Yields.pure (.item hf)
  | @literal site c hc =>
    obtain ⟨supply, scope⟩ := sound site c rfl
    exact Yields.bind (hc.copy scope table) fun c' hc' => Yields.pure (.literal hc')

end Expr.Bears

end QueryFunctions
