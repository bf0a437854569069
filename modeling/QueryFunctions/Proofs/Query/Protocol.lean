import Mathlib
import QueryFunctions.Proofs.Compile.Pact
import QueryFunctions.Proofs.Query.Worlds
import QueryFunctions.Proofs.Recursion.Simplify
import QueryFunctions.Proofs.Termination.Chain

/-! The stages of functions while a unit is compiled, and what a compiled unit may rely on: whatever it
calls is compiled. So the only resolutions that fail in a run are those that the builder has stored. For
the stages the compiler is run with a watch on everything that it writes to the registry. -/
namespace QueryFunctions

namespace Compile

open Classical in
/-- A change of the registry, left to `other` unless it takes one function at most one stage further. -/
noncomputable def modifyStaged (other : Compile Unit) (f : Registry → Registry) : Compile Unit := do
  let r := (← get).registry
  if r.Moves (f r) then modifyRegistry f else other

open Classical in
noncomputable def simplifyStaged (other : Compile Unit) (budget : Nat) (e : Expr) : Compile Expr := do
  let r := (← get).registry
  let result ← attempt (e.simplify budget)
  if (← get).registry = r then ofExcept result
  else do
    other
    ofExcept result

/-- Records the outcome of compiling a body, with the registry watched. -/
noncomputable def finishStaged (other : Compile Unit) (id : FuncId) (scope : Scope)
    (result : Except QueryError Expr) : Compile Unit := do
  let options ← read
  match result with
  | .error e =>
    modifyStaged other (·.update id fun entry => { entry with scope, stage := .failed e })
    throw e
  | .ok body => modifyStaged other (·.update id (Entry.finished options id scope body))

/-- Compiles the body of a function, with the registry watched. -/
noncomputable def functionStaged (other : Compile Unit) (simplify : Expr → Compile Expr) :
    (depth : Nat) → FuncId → Compile Unit
  | 0, _ => fault .budget
  | depth + 1, id => do
    let entry ← entryOf id
    match entry.stage with
    | .compiled => return
    | .compiling => modifyStaged other (·.update id fun entry => { entry with recursive := true })
    | .failed e => throw e
    | .pending =>
      match entry.body with
      | none => throw (.resolution entry.name entry.arity none entry.firstCall)
      | some body =>
        modifyStaged other (·.update id fun entry =>
          { entry with stage := .compiling, body := none, scope := {} })
        let (result, scope) ← inScope entry.scope
          (body.compileWith simplify (functionStaged other simplify depth))
        finishStaged other id scope result

noncomputable def expressionStaged (other : Compile Unit) (budget : Nat) (e : Expr) :
    Compile Expr := do
  let depth := (← get).registry.entries.length + 1
  e.compileWith (simplifyStaged other budget) (functionStaged other (simplifyStaged other budget) depth)

noncomputable def registeredStaged (other : Compile Unit) (budget : Nat) (id : FuncId) :
    Compile Unit := do
  functionStaged other (simplifyStaged other budget) ((← get).registry.entries.length + 1) id

noncomputable def mentionedStaged (other : Compile Unit) (budget : Nat) : Compile Unit := do
  let entries := (← get).registry.entries.zipIdx.filter fun (e, _) => !e.calls.isEmpty && e.defined
  entries.forM fun (_, index) => registeredStaged other budget ⟨index⟩
  modifyStaged other (·.propagateFlags)

end Compile

namespace Query

noncomputable def compileMainStaged (other : Compile Unit) (budget : Nat) (main : Expr) :
    Compile Expr := do
  let main ← Compile.expressionStaged other budget main
  Compile.mentionedStaged other budget
  return main.refreshCalls (← get).registry.flagsOf

/-- Compiles the query with the registry watched. Where a function would leave the order of its stages,
more than one would be taken further, or the simplifier had changed an entry, `other` comes in. -/
noncomputable def compileStaged (other : Compile Unit) (budget : Nat) (q : Query) :
    Except Fault (Except QueryError Unit) × Query :=
  q.compileBy (compileMainStaged other budget q.main)

end Query

/-- The function `id` is in the making. -/
def CompileState.Making (id : FuncId) (s : CompileState) : Prop :=
  ∃ e, s.registry.find? id = some e ∧ e.stage = .compiling

def makingPact (id : FuncId) : Pact CompileState where
  holds := CompileState.Making id
  leads _ _ := True
  refl _ := trivial
  trans _ _ := trivial
  near _ := True
  back _ near := near

variable {other : Compile Unit} {budget : Nat} {o : Options} {s : CompileState} {id : FuncId}

theorem CompileState.Making.of_registry {t : CompileState} (hs : s.Making id)
    (same : t.registry = s.registry) : t.Making id := by
  obtain ⟨e, found, compiling⟩ := hs
  exact ⟨e, same ▸ found, compiling⟩

theorem CompileState.Making.update (hs : s.Making id) {x : FuncId} {f : Entry → Entry}
    (kept : x = id → ∀ e, (f e).stage = e.stage) :
    CompileState.Making id { s with registry := s.registry.update x f } := by
  obtain ⟨e, found, compiling⟩ := hs
  by_cases same : id = x
  · refine ⟨f e, ?_, (kept same.symm e).trans compiling⟩
    rw [Registry.find?_update, if_pos same, found]
    rfl
  · exact ⟨e, by rw [Registry.find?_update, if_neg same, found], compiling⟩

theorem makingPact_compilers (budget : Nat) {prepare : FuncId → Compile Unit}
    (prepares : ∀ x s, s.Making id → (makingPact id).Keeps o s (prepare x) (prepare x) fun _ _ => True) :
    (makingPact id).Compilers o (fun _ => True) (fun _ _ => True) (fun _ _ => True)
      (Expr.simplify budget) (Expr.simplify budget) prepare prepare := by
  have simplifies : ∀ {e s}, CompileState.Making id s →
      (makingPact id).Keeps o s (Expr.simplify budget e) (Expr.simplify budget e) fun _ _ => True :=
    fun hs => .same fun result t run =>
      ⟨hs.of_registry (Expr.simplify_retains run).1, trivial, fun _ _ => trivial⟩
  exact {
    part := fun _ _ => trivial
    later := fun _ _ => trivial
    remains := fun _ _ => trivial
    enter := fun _ hs => hs.of_registry rfl
    leave := fun _ => trivial
    near := fun _ => trivial
    refine := fun _ _ _ => trivial
    ready := fun _ _ _ => trivial
    var := fun _ _ => trivial
    error := fun _ _ => trivial
    coerce := fun _ _ _ => trivial
    keepTail := fun _ _ => trivial
    prepares := fun _ _ hs => prepares _ _ hs
    simplifies := fun hs _ _ _ _ => simplifies hs
    literals := fun _ _ _ _ ht _ _ => simplifies ht }

namespace Compile

/-- While other functions are compiled, one that is in the making stays so. Nothing takes it up again: it
is no longer pending, and only where its own compilation ends its stage is written. -/
theorem function_making (depth : Nat) (x : FuncId) (s : CompileState) (hs : s.Making id) :
    (makingPact id).Keeps o s (function (Expr.simplify budget) depth x)
      (function (Expr.simplify budget) depth x) fun _ _ => True := by
  induction depth generalizing x s with
  | zero => exact .same (.of_fault rfl)
  | succ depth ih =>
    refine (Pact.Keeps.entryOf hs x).bind fun e t ht _ here => ?_
    obtain ⟨found, rfl⟩ := here
    split
    · exact .pure ht trivial
    · exact .of_eq (a := ()) rfl (ht.update fun _ _ => rfl) trivial trivial
    · exact .throw ht
    · rename_i pending
      split
      · exact .throw ht
      · rename_i body present
        -- One of the functions is pending and the other in the making.
        have apart : x ≠ id := by
          rintro rfl
          obtain ⟨e', here, compiling⟩ := ht
          cases found.symm.trans here
          cases pending.symm.trans compiling
        refine Pact.Keeps.bind (m := fun _ _ => True)
          (.of_eq rfl (ht.update fun same => absurd same apart) trivial trivial) fun _ u hu _ _ => ?_
        have compilers := makingPact_compilers budget fun y v hv => ih y v hv
        have compiles := compilers.compileWith body { u with scope := e.scope } (hu.of_registry rfl) trivial
        refine (compilers.inScope e.scope compiles).bind fun made v hv _ _ => ?_
        obtain ⟨result, scope⟩ := made
        have finished : ∀ f, CompileState.Making id { v with registry := v.registry.update x f } :=
          fun f => hv.update fun same => absurd same apart
        cases result with
        | error err =>
          refine .same fun result w run => ?_
          cases run
          refine ⟨finished _, trivial, fun made same => ?_⟩
          cases same
        | ok body => exact .of_eq (a := ()) rfl (finished _) trivial trivial

theorem function_compilers (budget depth : Nat) (o : Options) (id : FuncId) :
    (makingPact id).Compilers o (fun _ => True) (fun _ _ => True) (fun _ _ => True)
      (Expr.simplify budget) (Expr.simplify budget) (function (Expr.simplify budget) depth)
      (function (Expr.simplify budget) depth) :=
  makingPact_compilers budget fun x s hs => function_making depth x s hs

open Classical in
theorem simplifyStaged_eq : simplifyStaged other budget = Expr.simplify budget := by
  funext e o s
  unfold simplifyStaged
  rw [Computation.run_bind]
  change (attempt (e.simplify budget) >>= _) o s = _
  rw [Computation.run_bind]
  unfold attempt
  rcases run : e.simplify budget o s with ⟨f | result, t⟩
  · rfl
  · have same : t.registry = s.registry := (Expr.simplify_retains run).1
    change (if t.registry = s.registry then ofExcept result else _ : Compile Expr) o t = _
    rw [if_pos same]
    cases result <;> rfl

open Classical in
theorem modifyStaged_eq {f : Registry → Registry} (moves : s.registry.Moves (f s.registry)) :
    modifyStaged other f o s = modifyRegistry f o s := by
  unfold modifyStaged
  rw [Computation.run_bind]
  change (if s.registry.Moves (f s.registry) then modifyRegistry f else other : Compile Unit) o s = _
  rw [if_pos moves]

theorem finishStaged_eq (hs : s.Making id) (scope : Scope) (result : Except QueryError Expr) :
    finishStaged other id scope result o s = finishFunction id scope result o s := by
  obtain ⟨e, found, compiling⟩ := hs
  unfold finishStaged finishFunction
  rw [Computation.run_bind, Computation.run_bind, Computation.run_read]
  cases result with
  | error err =>
    dsimp only
    rw [Computation.run_bind, Computation.run_bind,
      modifyStaged_eq (Registry.moves_update found rfl (.inr (compiling ▸ .fail)))]
  | ok body => exact modifyStaged_eq (Registry.moves_update found rfl (.inr (compiling ▸ .finish)))

theorem functionStaged_eq (depth : Nat) :
    functionStaged other (Expr.simplify budget) depth = function (Expr.simplify budget) depth := by
  induction depth with
  | zero => rfl
  | succ depth ih =>
    funext id o s
    unfold functionStaged function
    rw [Computation.run_bind, Computation.run_bind, entryOf_run]
    cases found : s.registry.find? id with
    | none => rfl
    | some e =>
      dsimp only
      cases stage : e.stage with
      | compiled => rfl
      | failed err => rfl
      | compiling => exact modifyStaged_eq (Registry.moves_update found rfl (.inl rfl))
      | pending =>
        cases e.body with
        | none => rfl
        | some body =>
          dsimp only
          rw [Computation.run_bind, Computation.run_bind,
            modifyStaged_eq (Registry.moves_update found rfl (.inr (stage ▸ .begin))), ih]
          change (inScope e.scope _ >>= _) o _ = (inScope e.scope _ >>= _) o _
          rw [Computation.run_bind, Computation.run_bind]
          set t : CompileState := { s with registry := s.registry.update id fun entry =>
            { entry with stage := .compiling, body := none, scope := {} } }
          have making : t.Making id := ⟨_, Registry.find?_update_self found _, rfl⟩
          have compilers := function_compilers budget depth o id
          have compiles := compilers.compileWith body { t with scope := e.scope }
            (making.of_registry rfl) trivial
          -- Whatever the body has compiled on the way, this function is still in the making at its end.
          rcases run : inScope e.scope (body.compileWith (Expr.simplify budget)
            (function (Expr.simplify budget) depth)) o t with ⟨f | err | ⟨result, scope⟩, u⟩
          · rfl
          · rfl
          · exact finishStaged_eq ((compilers.inScope e.scope compiles).law _ _ run).1 scope result

theorem expressionStaged_eq (e : Expr) : expressionStaged other budget e = expression budget e := by
  unfold expressionStaged expression
  simp only [simplifyStaged_eq, functionStaged_eq]

theorem mentionedStaged_eq : mentionedStaged other budget = mentioned budget := by
  have registered : registeredStaged other budget = registered budget := by
    funext id
    unfold registeredStaged Compile.registered
    simp only [simplifyStaged_eq, functionStaged_eq]
  have spread : modifyStaged other (·.propagateFlags) = modifyRegistry (·.propagateFlags) := by
    funext o s
    exact modifyStaged_eq s.registry.moves_propagateFlags
  unfold mentionedStaged mentioned
  rw [registered, spread]

end Compile

namespace Query

theorem compileStaged_eq (other : Compile Unit) (budget : Nat) (q : Query) :
    q.compileStaged other budget = q.compile budget := by
  have same : compileMainStaged other budget q.main =
      compileMainWith (Expr.simplify budget) q.main := by
    unfold compileMainStaged
    rw [Compile.expressionStaged_eq, Compile.mentionedStaged_eq]
    rfl
  rw [compileStaged, same, compile_eq, compileWith]

variable {q : Query} {w : World} {focus : Prop}

/-- Calls anywhere in the code of a compiled unit have a compiled function as their target. -/
theorem Compiled.targets (compiled : q.Compiled w focus) {body : Expr} (has : q.HasBody body)
    {site : CallSite} {args : List Expr} (includes : body.Includes (.call site args)) :
    ∃ e, q.registry.find? site.target = some e ∧ e.arity = args.length ∧ e.stage = .compiled := by
  obtain ⟨_, hcall⟩ := compiled.formed_of_includes has includes
  cases hcall with
  | call called _ => exact compiled.called _ _ called

end Query

variable {options : Options} {requests : List BuildStep} {q : Query}

/-- While a unit is compiled every change of the registry takes one function at most, and that one stage
further: a watch on all of them makes no difference. When compilation returns none is in the making; and
without an error all that are mentioned are compiled and have a body, and every call has one of them as
its target. A run of the unit, started with a value that is well formed in its world, then raises no
resolution error but those that were stored. -/
theorem compile_protocol (made : Query.build options requests = .ok q) (budget : Nat) :
    (∀ other, q.compileStaged other budget = q.compile budget) ∧
    q.registry.Proceeds (q.compile budget).2.registry ∧
    (∀ result, (q.compile budget).1 = .ok result → ∀ id e,
      (q.compile budget).2.registry.find? id = some e → e.stage ≠ .compiling) ∧
    ((q.compile budget).1 = .ok (.ok ()) →
      (∀ id e, (q.compile budget).2.registry.find? id = some e →
        (∀ err, e.stage ≠ .failed err) ∧
        (e.calls ≠ [] → e.stage = .compiled ∧ e.body.isSome = true)) ∧
      (∀ body site args, (q.compile budget).2.HasBody body → body.Includes (.call site args) →
        ∃ e, (q.compile budget).2.registry.find? site.target = some e ∧ e.arity = args.length ∧
          e.stage = .compiled) ∧
      ∀ steps host focus err, (∀ v, focus = some v → v.Formed (q.world False)) →
        ((q.compile budget).2.execute steps host focus).1 = .ok (.error err) →
        err.isResolution = true → q.Stores err) := by
  obtain ⟨-, drafted⟩ := Query.drafted_of_build made
  obtain ⟨path, ended⟩ := (drafted.fit fun _ => trivial : q.Fit (q.world False) True).compile budget
  refine ⟨fun other => Query.compileStaged_eq other budget q, path, fun result returned id e found => ?_,
    fun compiled => ?_⟩
  · rw [returned] at ended
    cases result with
    | error err => exact ended id e found
    | ok =>
      rcases ended.stages id e found with ⟨-, pending⟩ | ⟨-, done⟩
      · rw [pending]
        rintro ⟨⟩
      · rw [done]
        rintro ⟨⟩
  · have all : (q.compile budget).2.Compiled (q.world False) True :=
      drafted.compiled (fun _ => trivial) compiled
    refine ⟨fun id e found => ⟨fun err failed => ?_, fun called => ?_⟩, fun _ _ _ has => all.targets has,
      fun steps host focus err hfocus run resolution => ?_⟩
    · rcases all.stages id e found with ⟨-, pending⟩ | ⟨-, done⟩
      · cases failed.symm.trans pending
      · cases failed.symm.trans done
    · have done := ((all.stages id e found).resolve_left fun none => called none.1).2
      exact ⟨done, (all.functions id e found).present (.inr done)⟩
    · have ends := all.run steps host hfocus
      rw [← Query.execute_of_compiled compiled, run] at ends
      exact ends.resolve_left fun other => by cases resolution.symm.trans other

def unresolved : QueryError := .resolution "g" 0 none .synthetic

/-- Two functions that call each other, one of them by its name, and an error after a call. -/
def alternating : Sample {} where
  requests :=
    [.declare { name := some "even", params := [("n", none)] }
        (.branch (.compare .eq (.var "n") (.datum (.int 0))) (.datum (.bool true))
          (.call "odd" [.arith .sub (.var "n") (.datum (.int 1))])),
      .declare { name := some "odd", params := [("n", none)] }
        (.branch (.compare .eq (.var "n") (.datum (.int 0))) (.datum (.bool false))
          (.call "for-each" [.arith .sub (.var "n") (.datum (.int 1)), .literal "even" 1])),
      .main (.seq [.call "even" [.focus], .error unresolved])]
  made := by cbv
  compiled := by cbv

theorem alternating_fails : ((alternating.query.compile 9).2.execute 9 .quiet (some (.int 1))).1 =
    .ok (.error unresolved) := by cbv

/-- Both functions go their way, and the error of a run is the one that was stored. -/
theorem compile_protocol_alternating :
    alternating.query.compileStaged (throw unresolved) 9 = alternating.query.compile 9 ∧
      alternating.query.Stores unresolved := by
  obtain ⟨staged, -, -, ends⟩ := compile_protocol alternating.made 9
  obtain ⟨-, -, raised⟩ := ends alternating.compiled
  refine ⟨staged _, raised 9 .quiet (some (.int 1)) unresolved ?_ alternating_fails rfl⟩
  rintro _ ⟨⟩
  exact .int

end QueryFunctions
