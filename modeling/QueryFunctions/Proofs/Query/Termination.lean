import QueryFunctions.Proofs.Query.Worlds
import QueryFunctions.Proofs.Termination.Functions

/-! Compilation of units comes to an end, whatever their closures and functions do to each other, and no
closure is expanded within its own expansion. -/
namespace QueryFunctions

open Contract

def Kind.isCode : Kind → Bool
  | .value _ | .closure _ _ _ => false
  | _ => true

theorem Kind.Built.code {origins : Finset Origin} {n : Nat} {k : Kind}
    (fits : k.Fits ⟨origins, fun _ => True⟩ [] n) (code : k.isCode = true) : k.Built origins n where
  fits := fits
  value := by rintro _ rfl; cases code
  raw := by rintro _ _ _ rfl; cases code

def Expr.origins (e : Expr) : List Origin := e.kinds.filterMap fun
  | .closure origin _ _ => some origin
  | _ => none

namespace Expr

variable {origins : Finset Origin} {n : Nat} {e : Expr}

theorem origins_subset_of_mem_parts {p : Expr} (mem : p ∈ e.parts) : p.origins ⊆ e.origins :=
  List.filterMap_subset _ (kinds_subset_of_mem_parts mem)

theorem mem_origins_of_kind {origin : Origin} {captures : Nat} {compiled : Bool}
    (here : e.kind = .closure origin captures compiled) : origin ∈ e.origins :=
  List.mem_filterMap.2 ⟨_, mem_kinds_iff.2 (.inl rfl), by rw [here]⟩

theorem Built.node (own : e.kind.Built origins n) (parts : ∀ p ∈ e.parts, p.Built origins n) :
    e.Built origins n := by
  intro k mem
  rcases mem_kinds_iff.1 mem with rfl | ⟨p, part, mem⟩
  · exact own
  · exact parts p part k mem

theorem Draft.built {r : Registry} {exact : Prop} {p : Place} (h : e.Draft r exact p)
    (fresh : p.scope.FreshFor p.supply) (known : ∀ x ∈ e.origins, x ∈ origins) :
    e.Built origins p.supply.nextVar := by
  have part : ∀ {e x : Expr}, (∀ o ∈ e.origins, o ∈ origins) → x ∈ e.parts →
      ∀ o ∈ x.origins, o ∈ origins :=
    fun all mem o among => all o (origins_subset_of_mem_parts mem among)
  have plain : ∀ {n}, Kind.plain.Built origins n := .code trivial rfl
  induction h with
  | value hv =>
    refine .node ⟨trivial, ?_, by rintro _ _ _ ⟨⟩⟩ (List.forall_mem_nil _)
    rintro v ⟨⟩ f has
    obtain ⟨b, code⟩ := hv.builtin f has
    exact .builtin code
  | var bound mem => exact .node (.code (fresh _ mem) rfl) (List.forall_mem_nil _)
  | letIn _ _ _ _ hbound hbody =>
    exact .node (.code trivial rfl) (List.forall_mem_cons.2
      ⟨hbound fresh (part known (by simp [parts])),
        List.forall_mem_singleton.2 (hbody fresh (part known (by simp [parts])))⟩)
  | branch _ _ _ hcond hyes hno =>
    refine .node plain ?_
    simpa [parts] using ⟨hcond fresh (part known (by simp [parts])),
      hyes fresh (part known (by simp [parts])), hno fresh (part known (by simp [parts]))⟩
  | arith _ _ hl hr | compare _ _ hl hr =>
    refine .node plain ?_
    simpa [parts] using And.intro (hl fresh (part known (by simp [parts])))
      (hr fresh (part known (by simp [parts])))
  | seq _ h | builtin _ h => exact .node plain fun x mem => h x mem fresh (part known mem)
  | focus | error => exact .node plain (List.forall_mem_nil _)
  | treat _ h => exact .node plain (List.forall_mem_singleton.2 (h fresh (part known (by simp [parts]))))
  | @closure p c raw serves _ _ _ hcaptures hbody =>
    refine .node ⟨known _ (mem_origins_of_kind rfl), by rintro _ ⟨⟩, ?_⟩ fun x mem => ?_
    · rintro _ _ _ ⟨⟩
      exact raw
    · rcases List.mem_append.1 mem with capture | body
      · obtain ⟨q, among, rfl⟩ := List.mem_map.1 capture
        exact hcaptures q among fresh (part known mem)
      · cases List.mem_singleton.1 body
        exact hbody serves.sound.fresh (part known mem)
  | @literal p site c inner refs _ _ raw none serves _ _ body _ hrefs =>
    refine .node ⟨known _ (mem_origins_of_kind rfl), by rintro _ ⟨⟩, ?_⟩ fun x mem => ?_
    · rintro _ _ _ ⟨⟩
      exact raw
    · have same : x = .call inner (refs.map .var) := by simpa [parts, none, body] using mem
      rw [same]
      refine .node (.code trivial rfl) (List.forall_mem_map.2 fun ref mem => ?_)
      exact .node (.code (serves.sound.fresh _ (hrefs ref mem).2) rfl) (List.forall_mem_nil _)
  | partialApply _ _ _ htarget h =>
    refine .node plain (List.forall_mem_cons.2 ⟨htarget fresh (part known (by simp [parts])), ?_⟩)
    exact fun x mem => h x mem fresh (part known (by simp [parts, mem]))
  | call _ _ h =>
    exact .node (.code trivial rfl) fun x mem => h x mem fresh (part known mem)
  | dynamicCall _ _ hcallee h =>
    refine .node (.code (List.nil_subset _) rfl)
      (List.forall_mem_cons.2 ⟨hcallee fresh (part known (by simp [parts])), ?_⟩)
    exact fun x mem => h x mem fresh (part known (by simp [parts, mem]))

end Expr

namespace Query

variable {q : Query} {exact : Prop}

def bodies (q : Query) : List Expr := q.main :: q.registry.entries.filterMap (·.body)

def origins (q : Query) : Finset Origin := (q.bodies.flatMap Expr.origins).toFinset

theorem mem_origins {body : Expr} (mem : body ∈ q.bodies) : ∀ x ∈ body.origins, x ∈ q.origins :=
  fun _ here => List.mem_toFinset.2 (List.mem_flatMap.2 ⟨body, mem, here⟩)

theorem Drafted.tame (drafted : q.Drafted exact) (o : Options) :
    CompileState.Tame o q.origins (q.registry.entries.length + 1) (fun _ => False)
      ⟨q.supply, q.registry, q.scope⟩ where
  built id e body found _ present := by
    have draft := drafted.functions.entries id e found
    refine (draft.body body present).built draft.scope.sound.fresh (mem_origins ?_)
    exact List.mem_cons_of_mem _ (List.mem_filterMap.2 ⟨e, List.mem_of_getElem? found, present⟩)
  tame id e body found begun _ := absurd (drafted.functions.entries id e found).pending begun
  pending := Nat.lt_succ_of_le List.countP_le_length
  busy _ := False.elim

theorem Drafted.settles (drafted : q.Drafted exact) :
    ∃ least result, result.1 ≠ .error .budget ∧
      ∀ alarm budget, least ≤ budget → q.compileWatched alarm budget = result := by
  have main : q.main.Built q.origins q.supply.nextVar :=
    drafted.main.built drafted.scope.fresh (mem_origins List.mem_cons_self)
  obtain ⟨least, outcome, admits, same⟩ := compileMainWith_settles (drafted.tame q.options) main
  have run : ∀ alarm budget, least ≤ budget →
      (compileMainWith (Expr.simplifyWatched alarm budget []) q.main).outcome q.options
        ⟨q.supply, q.registry, q.scope⟩ = outcome := same
  refine ⟨least, q.compileWatched id least, ?_, fun alarm budget le => ?_⟩
  · unfold compileWatched compileWith compileBy
    rw [drafted.stage]
    dsimp only
    split
    · rintro ⟨⟩
    · rw [run id least (Nat.le_refl _)]
      obtain ⟨f | e | main, t⟩ := outcome
      · exact fun met => admits.2 (Except.error.inj met)
      · rintro ⟨⟩
      · rintro ⟨⟩
  · unfold compileWatched compileWith compileBy
    rw [run alarm budget le, run id least (Nat.le_refl _)]

end Query

/-- Every unit can be compiled, with any inline limits: from some budget on, compilation comes to one and
the same end, which is no lack of budget. It is no fault at all, unless a placeholder of a partial application
was put beyond its arguments. And on no chain of nested expansions is a closure expanded that is on the
chain already: a watch on these makes no difference, whatever its alarm would do. -/
theorem compilation_terminates (options : Options) (requests : List BuildStep) :
    ∃ q, Query.build options requests = .ok q ∧ q.options = options ∧ ∃ least result compiled,
      (∀ budget, least ≤ budget → q.compile budget = (result, compiled) ∧
        ∀ alarm, q.compileWatched alarm budget = (result, compiled)) ∧
      ∀ f, result = .error f → (∃ position, f = .missingParameter position) ∧
        ∃ request ∈ requests, request.named = false := by
  have named : (∀ request ∈ requests, request.named = true) →
      ∀ request ∈ requests, request.named = true := id
  obtain ⟨q, made, same, drafted⟩ := Query.build_drafted options named
  obtain ⟨least, ⟨result, compiled⟩, ended, settled⟩ := drafted.settles
  have plain : ∀ budget, least ≤ budget → q.compile budget = (result, compiled) := fun budget le =>
    q.compileWatched_id budget ▸ settled id budget le
  refine ⟨q, made, same, least, result, compiled,
    fun budget le => ⟨plain budget le, fun alarm => settled alarm budget le⟩, fun f met => ?_⟩
  have fit : q.Fit (q.world (∀ request ∈ requests, request.named = true)) True :=
    drafted.fit fun _ => trivial
  have allowed := (fit.compile least).2
  rw [plain least (Nat.le_refl _)] at allowed
  subst met
  cases f with
  | budget => exact absurd rfl ended
  | missingParameter position =>
    refine ⟨⟨position, rfl⟩, ?_⟩
    have outside : ¬∀ request ∈ requests, request.named = true := allowed
    simpa using outside
  | undeclaredVariable | uncopiedVariable | slotOutsideFrame | missingFunction => exact allowed.elim

def selfApplication : Surface :=
  .letIn "f" (.function { params := [("g", none), ("n", none)] }
      (.branch (.compare .le (.var "n") (.datum (.int 0))) (.datum (.int 3))
        (.dynamicCall false (.var "g") [.var "g", .arith .sub (.var "n") (.datum (.int 1))])))
    (.dynamicCall false (.var "f") [.var "f", .datum (.int 5)])

example : ((Query.ofRequests {} [.main selfApplication]).compile 9).1 = .ok (.ok ()) := by cbv

end QueryFunctions
