import QueryFunctions.Compile.Function
import QueryFunctions.FunctionInfo
import QueryFunctions.Registry.Check
import QueryFunctions.Run.Evaluation
import QueryFunctions.Surface.Building

/-! A query: registered functions and a main expression. It is checked and compiled once; after
that it can be run any number of times, each run from a fresh state. A query that failed to
compile stays failed, with its main expression as it was built. -/
namespace QueryFunctions

inductive QueryStage where
  | built
  | compiled
  | failed (error : QueryError)
deriving DecidableEq, Repr

structure Query where
  options : Options
  supply : Supply
  registry : Registry
  main : Expr
  /-- The scope of the main expression. -/
  scope : Scope
  stage : QueryStage := .built

/-- The value of the main expression and the updates that it asked for, in order. -/
structure Answer where
  value : Value
  updates : List Value

namespace Query

/-- The query with that main expression, as everything else was left by the builder. -/
def ofBuild (options : Options) (state : BuildState) (main : Expr) : Query where
  options
  supply := state.supply
  registry := state.registry
  main
  scope := state.frame.scope

def isCompiled (q : Query) : Bool := q.stage = .compiled

/-- What has to hold before anything is compiled. -/
def check (q : Query) : Except QueryError Unit := do
  q.options.validate
  q.registry.check
  q.registry.checkUpdates q.options
  q.main.checkUpdates q.registry q.options

/-- The compiled main expression; all functions that are mentioned are compiled as well. -/
def compileMain (budget : Nat) (main : Expr) : Compile Expr := do
  let main ← Compile.expression budget main
  Compile.mentioned budget
  return main.refreshCalls (← get).registry.flagsOf

/-- Checks and compiles the query unless that was tried before. A try that ends with a fault does
not count, but what it compiled in the registry stays. -/
def compile (budget : Nat) (q : Query) : Except Fault (Except QueryError Unit) × Query :=
  match q.stage with
  | .compiled => (.ok (.ok ()), q)
  | .failed e => (.ok (.error e), q)
  | .built =>
    match q.check with
    | .error e => (.ok (.error e), { q with stage := .failed e })
    | .ok () =>
      let (result, state) := (compileMain budget q.main).outcome q.options
        ⟨q.supply, q.registry, q.scope⟩
      let q := { q with supply := state.supply, registry := state.registry, scope := state.scope }
      match result with
      | .error f => (.error f, q)
      | .ok (.error e) => (.ok (.error e), { q with stage := .failed e })
      | .ok (.ok main) => (.ok (.ok ()), { q with main, stage := .compiled })

def setting (q : Query) : RunSetting := ⟨q.registry, q.options⟩

def runMain (budget : Nat) (q : Query) : Run Answer := do
  let value ← Run.inFrame q.scope.frameSize (Run.evaluate budget q.main)
  return ⟨value, ← Run.takeUpdates⟩

/-- Compiles the query if need be and runs it. -/
def execute (budget : Nat) (q : Query) (host : Host) (focus : Option Value) :
    Except Fault (Except QueryError Answer) × Query :=
  let (compiled, q) := q.compile budget
  match compiled with
  | .error f => (.error f, q)
  | .ok (.error e) => (.ok (.error e), q)
  | .ok (.ok ()) =>
    let (result, state) := (q.runMain budget).outcome q.setting
      (.start q.supply q.options host focus)
    (result, { q with supply := state.supply })

theorem compile_of_compiled (budget : Nat) (q : Query) (h : q.stage = .compiled) :
    q.compile budget = (.ok (.ok ()), q) := by
  unfold compile
  rw [h]

theorem compile_of_failed (budget : Nat) (q : Query) (e : QueryError) (h : q.stage = .failed e) :
    q.compile budget = (.ok (.error e), q) := by
  unfold compile
  rw [h]

end Query

end QueryFunctions
