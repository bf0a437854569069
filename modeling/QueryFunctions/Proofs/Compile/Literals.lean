import QueryFunctions.Proofs.Compile.Pact
import QueryFunctions.Proofs.Recursion.State
import QueryFunctions.Proofs.Registry.Signature

/-! Literals while functions are compiled. An inspector looks at every literal once that is compiled. A
function keeps its signature to the end, but as long as it is in the making it has no parameters to offer:
a literal that is compiled then is left with numbered ones. -/
namespace QueryFunctions

open Relation

namespace Expr

/-- The simplifier with an inspector, who sets off an alarm at literals that are not let pass. -/
def simplifyInspected (passes : Registry → LiteralSite → Expr → Bool) (alarm : Compile Expr) (budget : Nat) :
    Expr → Compile Expr
  | .literal site c => do
    let made ← (Expr.literal site c).simplify budget
    if passes (← get).registry site made then return made else alarm
  | e => e.simplify budget

end Expr

/-- What a literal takes over from a function that has come to that stage. -/
def Entry.lent (d : Entry) : CompileStage → Signature
  | .compiling => d.signature.numbered
  | _ => d.signature

/-- What an entry has become of since it was declared. -/
structure Entry.Follows (d e : Entry) : Prop where
  recorded : e.recorded = d.recorded
  pending : e.stage = .pending → e.body = d.body
  compiling : e.stage = .compiling → e.scope = {}
  scope : e.stage ≠ .compiling → e.scope.Retains d.scope

/-- The literal has what the function lends that it names. Functions in the making are of the kind
`loops`. -/
def Registry.Lends (declared : Registry) (loops : FuncId → Prop) (r : Registry) (site : LiteralSite)
    (literal : Expr) : Prop :=
  ∃ d e, declared.find? site.target = some d ∧ d.name = site.name ∧ r.find? site.target = some e ∧
    (e.stage = .compiling → loops site.target) ∧ literal.Bears (d.lent e.stage)

/-- The closure behind a literal of the function `d` that is not compiled yet. -/
structure Closure.Blank (d : Entry) (c : Closure) : Prop where
  bears : c.Bears ⟨some d.name, numberedLabels 0 d.params.length, none, {}⟩
  distinct : c.params.Nodup
  bare : c.captures = []

/-- All literals in the code are blank ones of declared functions. -/
def Expr.Blank (declared : Registry) (e : Expr) : Prop :=
  ∀ site c, .literal site c ∈ e.nodes →
    ∃ d, declared.find? site.target = some d ∧ d.name = site.name ∧ c.Blank d

theorem Expr.Blank.part {declared : Registry} {e p : Expr} (h : e.Blank declared) (mem : p ∈ e.parts) :
    p.Blank declared := fun site c among => h site c (nodes_subset_of_mem_parts mem among)

/-- Parameters of declared functions are variables of their scopes, and their literals are blank. -/
structure Registry.Blank (declared : Registry) : Prop where
  known : ∀ id d, declared.find? id = some d → ∀ x ∈ d.params, (d.scope.find? x).isSome = true
  body : ∀ id d body, declared.find? id = some d → d.body = some body → body.Blank declared

namespace Entry.Follows

variable {d e : Entry} (h : d.Follows e)

include h

theorem signature_of_making (making : e.stage = .compiling) :
    e.signature = { d.signature with params := [] } := by
  have none : ∀ ids : List VarId, ({} : Scope).labels ids = [] :=
    fun ids => List.filterMap_eq_nil_iff.2 fun _ _ => rfl
  unfold signature
  rw [h.compiling making, none, Entry.name_eq h.recorded, Entry.declared_eq h.recorded,
    Entry.annotations_eq h.recorded]

theorem signature_eq (known : ∀ x ∈ d.params, (d.scope.find? x).isSome = true)
    (idle : e.stage ≠ .compiling) : e.signature = d.signature := by
  unfold signature
  rw [Entry.params_eq h.recorded, (h.scope idle).labels_eq known, Entry.name_eq h.recorded,
    Entry.declared_eq h.recorded, Entry.annotations_eq h.recorded]

end Entry.Follows

theorem Entry.lent_of_idle (d : Entry) {stage : CompileStage} (idle : stage ≠ .compiling) :
    d.lent stage = d.signature := by
  cases stage with
  | compiling => exact absurd rfl idle
  | _ => rfl

theorem Closure.Blank.adaptTo {d e : Entry} {c : Closure} (blank : c.Blank d) (h : d.Follows e)
    (known : ∀ x ∈ d.params, (d.scope.find? x).isSome = true) :
    (c.adaptTo e).Bears (d.lent e.stage) := by
  have adapted := blank.bears.adaptTo blank.distinct e
  have length : d.signature.params.length = d.params.length := Scope.length_labels known
  have count : (numberedLabels 0 d.params.length).length = d.params.length := by
    rw [numberedLabels, List.length_map, List.length_range']
  dsimp only at adapted
  rw [Entry.declared_eq h.recorded, Entry.annotations_eq h.recorded, count] at adapted
  by_cases making : e.stage = .compiling
  · rw [h.signature_of_making making, List.take_nil, List.nil_append, List.length_nil, List.drop_zero,
      ← length] at adapted
    rw [making]
    exact adapted
  · rw [h.signature_eq known making, length, List.take_of_length_le length.le,
      List.drop_of_length_le count.le, List.append_nil] at adapted
    rw [d.lent_of_idle making]
    exact adapted

variable {declared : Registry} {busy loops R : FuncId → Prop} {passes : Registry → LiteralSite → Expr → Bool}
  {alarm : Compile Expr} {budget : Nat} {o : Options} {s t : CompileState} {id : FuncId}

/-- The registry is what has become of the declared one; the functions `busy` are in the making. -/
structure CompileState.Follows (declared : Registry) (busy : FuncId → Prop) (s : CompileState) :
    Prop where
  entry : ∀ id d, declared.find? id = some d → ∃ e, s.registry.find? id = some e
  origin : ∀ id e, s.registry.find? id = some e → ∃ d, declared.find? id = some d ∧ d.Follows e
  busy : ∀ id e, s.registry.find? id = some e → (e.stage = .compiling ↔ busy id)

theorem CompileState.Follows.of_registry (hs : s.Follows declared busy)
    (same : t.registry = s.registry) : t.Follows declared busy :=
  ⟨same ▸ hs.entry, same ▸ hs.origin, same ▸ hs.busy⟩

theorem CompileState.retains_refl (s : CompileState) : s.scope.Retains s.scope := .refl s.scope

theorem CompileState.retains_trans {s t u : CompileState} (first : t.scope.Retains s.scope)
    (second : u.scope.Retains t.scope) : u.scope.Retains s.scope :=
  second.trans first

/-- Scopes keep their variables, as long as these are in use. -/
def inspectionPact (declared : Registry) (busy : FuncId → Prop) : Pact CompileState where
  holds := CompileState.Follows declared busy
  leads s t := t.scope.Retains s.scope
  refl := CompileState.retains_refl
  trans := @CompileState.retains_trans
  near _ := True
  back _ near := near

abbrev Compile.Inspects (declared : Registry) (busy : FuncId → Prop) (o : Options) (s : CompileState)
    (act act' : Compile Expr) : Prop :=
  (inspectionPact declared busy).Keeps o s act act' fun _ _ => True

def PrepareInspects (declared : Registry) (busy R : FuncId → Prop) (o : Options)
    (prepare prepare' : FuncId → Compile Unit) : Prop :=
  ∀ (id : FuncId) (s : CompileState), s.Follows declared busy → R id →
    (inspectionPact declared busy).Keeps o s (prepare id) (prepare' id) fun _ _ => True

namespace Compile

theorem simplify_follows (hs : s.Follows declared busy) (budget : Nat) (e : Expr) :
    (inspectionPact declared busy).toLaw.Keeps o s (e.simplify budget) fun _ t =>
      t.registry = s.registry := by
  intro result t run
  obtain ⟨same, retains⟩ := Expr.simplify_retains run
  exact ⟨hs.of_registry same, retains, fun _ _ => same⟩

theorem simplified_inspects (hs : s.Follows declared busy) {e : Expr}
    (other : ∀ site c, e ≠ .literal site c) : Inspects declared busy o s (e.simplify budget)
      (e.simplifyInspected passes alarm budget) := by
  have kept := (simplify_follows (o := o) hs budget e).mono fun _ _ _ _ _ => trivial
  cases e with
  | literal site c => exact absurd rfl (other site c)
  | _ => exact .same kept

theorem literal_inspects (hs : s.Follows declared busy) {site : LiteralSite} {c : Closure} {d e : Entry}
    (lets : ∀ r site literal, declared.Lends loops r site literal → passes r site literal = true)
    (looping : busy site.target → loops site.target) (known : declared.find? site.target = some d)
    (named : d.name = site.name) (found : s.registry.find? site.target = some e)
    (bears : c.Bears (d.lent e.stage))
    (compiled : c.compiled = true) (bare : c.captures = []) :
    Inspects declared busy o s ((Expr.literal site c).simplify budget)
      ((Expr.literal site c).simplifyInspected passes alarm budget) := by
  have kept := simplify_follows (o := o) hs budget (.literal site c)
  refine ⟨kept.mono fun _ _ _ _ _ => trivial, fun result t run _ => ?_⟩
  rw [Expr.simplifyInspected, Computation.run_bind, run]
  rcases result with err | made
  · rfl
  · have same := (kept _ _ run).2.2 made rfl
    have lends : declared.Lends loops t.registry site made :=
      ⟨d, e, known, named, same ▸ found, fun making => looping ((hs.busy _ e found).1 making),
        Expr.Bears.simplify bears compiled bare run⟩
    dsimp only
    rw [Computation.run_bind]
    change (if passes t.registry site made then pure made else alarm : Compile Expr) o t = _
    rw [if_pos (lets _ _ _ lends)]
    rfl

end Compile

theorem Closure.Becomes.bears {made : Expr → Prop} {c c' : Closure} {σ : Signature}
    (h : c.Becomes (inspectionPact declared busy) made c') (bears : c.Bears σ) : c'.Bears σ := by
  obtain ⟨s, t, retains, start, last⟩ := h.scope
  exact bears.retained (by rw [h.shape]) (by rw [h.shape]) (by rw [h.shape]) (by rw [h.shape])
    (last ▸ retains.trans start)

theorem inspectionPact_compilers (alarm : Compile Expr) (budget : Nat)
    {prepare prepare' : FuncId → Compile Unit}
    (prepares : PrepareInspects declared busy R o prepare prepare') (blank : declared.Blank)
    (lets : ∀ r site literal, declared.Lends loops r site literal → passes r site literal = true)
    (looping : ∀ id, busy id → R id → loops id) :
    (inspectionPact declared busy).Compilers o (fun e => e.Blank declared ∧ e.Within R)
      (fun _ _ => True) (fun _ _ => True) (Expr.simplify budget)
      (Expr.simplifyInspected passes alarm budget) prepare prepare' where
  part raw mem := ⟨raw.1.part mem, raw.2.part mem⟩
  later _ _ := trivial
  remains _ _ := trivial
  enter _ hs := hs.of_registry rfl
  leave _ := .refl _
  near _ := trivial
  refine _ _ _ := Scope.retains_refine _ _ _
  ready _ _ _ := trivial
  var _ _ := trivial
  error _ _ := trivial
  coerce _ _ _ := trivial
  keepTail _ _ := trivial
  prepares raw use hs := prepares _ _ hs (raw.2.own use)
  simplifies hs _ other _ _ := Compile.simplified_inspects hs other
  literals {site c c' e s t} raw hs found _ ht _ made := by
    obtain ⟨d, there, named, hc⟩ := raw.1 site c (Expr.mem_nodes_self _)
    obtain ⟨d', here, follows⟩ := hs.origin _ e found
    cases here.symm.trans there
    obtain ⟨e', found'⟩ := ht.entry _ d there
    have stage : d.lent e'.stage = d.lent e.stage := by
      by_cases going : busy site.target
      · rw [(hs.busy _ e found).2 going, (ht.busy _ e' found').2 going]
      · rw [d.lent_of_idle (going ∘ (hs.busy _ e found).1), d.lent_of_idle (going ∘ (ht.busy _ e' found').1)]
    have adapted := made.bears (hc.adaptTo follows (blank.known _ d there))
    exact Compile.literal_inspects ht lets (fun going => looping _ going (Expr.within_literal.1 raw.2).1)
      there named found' (stage ▸ adapted) (congrArg Closure.compiled made.shape) (made.bare hc.bare)

theorem CompileState.Follows.update (hs : s.Follows declared busy) (busy' : FuncId → Prop) {e : Entry}
    (found : s.registry.find? id = some e) {f : Entry → Entry}
    (follows : ∀ d, declared.find? id = some d → d.Follows e → d.Follows (f e))
    (own : (f e).stage = .compiling ↔ busy' id) (others : ∀ x, x ≠ id → (busy' x ↔ busy x)) :
    CompileState.Follows declared busy' { s with registry := s.registry.update id f } := by
  refine ⟨fun x d known => ?_, Registry.forall_update found ?_ fun x e' _ => hs.origin x e',
    Registry.forall_update found own fun x e' apart here => ?_⟩
  · obtain ⟨e', here⟩ := hs.entry x d known
    dsimp only
    rw [Registry.find?_update, here]
    split
    · exact ⟨f e', rfl⟩
    · exact ⟨e', rfl⟩
  · obtain ⟨d, known, before⟩ := hs.origin id e found
    exact ⟨d, known, follows d known before⟩
  · exact (hs.busy x e' here).trans (others x apart).symm

namespace Compile

theorem finishFunction_inspects (idle : ¬busy id) (hs : s.Follows declared fun x => x = id ∨ busy x)
    {e : Entry} (found : s.registry.find? id = some e) {scope : Scope}
    (retains : ∀ d, declared.find? id = some d → scope.Retains d.scope)
    (made : Except QueryError Expr) :
    (inspectionPact declared busy).Keeps o s (finishFunction id scope made)
      (finishFunction id scope made) fun _ _ => True := by
  have others : ∀ x, x ≠ id → (busy x ↔ x = id ∨ busy x) := fun x apart => by simp [apart]
  cases made with
  | error err =>
    have ht := hs.update busy found
      (f := fun entry => { entry with scope, stage := .failed err })
      (fun d known follows => ⟨follows.recorded, nofun, nofun, fun _ => retains d known⟩)
      (by simpa using idle) others
    refine .same fun result t run => ?_
    cases run
    exact ⟨ht, .refl _, nofun⟩
  | ok body =>
    have ht := hs.update busy found (f := Entry.finished o id scope body)
      (fun d known follows => ⟨follows.recorded, nofun, nofun, fun _ => retains d known⟩)
      (by simpa [Entry.finished] using idle) others
    exact .of_eq (a := ()) rfl ht (.refl _) trivial

theorem function_inspects (depth : Nat) (blank : declared.Blank)
    (lets : ∀ r site literal, declared.Lends (fun id => TransGen declared.Uses id id) r site literal →
      passes r site literal = true) {busy R : FuncId → Prop} (ahead : Ahead declared.Uses busy R) :
    PrepareInspects declared busy R o (function (Expr.simplify budget) depth)
      (function (Expr.simplifyInspected passes alarm budget) depth) := by
  induction depth generalizing busy R with
  | zero => exact fun _ _ _ _ => .same (.of_fault rfl)
  | succ depth ih =>
    intro id s hs within
    refine (Pact.Keeps.entryOf hs id).bind fun e t ht _ here => ?_
    obtain ⟨found, rfl⟩ := here
    split
    · exact .pure ht trivial
    · rename_i compiling
      have hu := ht.update busy found (f := fun e => { e with recursive := true })
        (fun d _ follows => ⟨follows.recorded, follows.pending, follows.compiling, follows.scope⟩)
        (ht.busy id e found) fun _ _ => .rfl
      exact .of_eq (a := ()) rfl hu (.refl _) trivial
    · exact .throw ht
    · rename_i pending
      split
      · exact .throw ht
      · rename_i body present
        have idle : ¬busy id := fun going => by
          cases pending.symm.trans ((ht.busy id e found).2 going)
        have hu : (t.begun id).Follows declared fun x => x = id ∨ busy x :=
          ht.update _ found (fun d _ follows => ⟨follows.recorded, by rintro ⟨⟩, fun _ => rfl,
          (absurd rfl ·)⟩)
            (iff_of_true rfl (.inl rfl)) fun x apart => by simp [apart]
        obtain ⟨d, known, follows⟩ := ht.origin id e found
        have own : d.body = some body := (follows.pending pending).symm.trans present
        have names : body.Within (TransGen declared.Uses id) :=
          fun callee names => .single ⟨d, body, known, own, names⟩
        have inner := ahead.inside within
        have compilers := inspectionPact_compilers alarm budget (ih inner) blank lets
          fun x going here => inner.reached x x going here
        have compiles := compilers.compileWith body { t.begun id with scope := e.scope }
          (hu.of_registry rfl) ⟨blank.body id d body known own, names⟩
        refine Pact.Keeps.enclosing (t := t.begun id) rfl rfl (.refl _) (compilers.inScope e.scope compiles)
          (inScope_quiet _ _) (fun h => h) (fun h => h) fun made v hv _ ending => ?_
        obtain ⟨u, retains, last⟩ := ending.2
        obtain ⟨e', here⟩ := hv.entry id d known
        refine finishFunction_inspects idle hv here (fun d' known' => ?_) made.1
        cases known.symm.trans known'
        exact last ▸ retains.trans (follows.scope (by simp [pending]))

section

variable (blank : declared.Blank)
  (lets : ∀ r site literal, declared.Lends (fun id => TransGen declared.Uses id id) r site literal →
    passes r site literal = true) (hs : s.Follows declared fun _ => False)

include blank lets hs

theorem registeredWith_inspects (id : FuncId) :
    (inspectionPact declared fun _ => False).Keeps o s (registeredWith (Expr.simplify budget) id)
      (registeredWith (Expr.simplifyInspected passes alarm budget) id) fun _ _ => True := by
  refine (Pact.Keeps.get hs).bind fun _ t ht _ same => ?_
  obtain ⟨rfl, rfl⟩ := same
  exact function_inspects _ blank lets .idle id t ht trivial

theorem expressionWith_inspects {e : Expr} (he : e.Blank declared) :
    Inspects declared (fun _ => False) o s (expressionWith (Expr.simplify budget) e)
      (expressionWith (Expr.simplifyInspected passes alarm budget) e) := by
  refine (Pact.Keeps.get hs).bind fun _ t ht _ same => ?_
  obtain ⟨rfl, rfl⟩ := same
  exact (inspectionPact_compilers _ _ (function_inspects _ blank lets .idle) blank lets
    fun _ => False.elim).compileWith e t ht ⟨he, fun _ _ => trivial⟩

end

end Compile

end QueryFunctions
