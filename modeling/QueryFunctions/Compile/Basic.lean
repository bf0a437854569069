import QueryFunctions.Registry.Basic

/-! Computations of the compiler. They read the options, draw identities, use the registry and work
in the scope of one function body at a time. What they did before an error or a fault stays done:
the state outlives both, and a fault ends everything else. -/
namespace QueryFunctions

structure CompileState where
  supply : Supply
  registry : Registry
  /-- The scope of the body at hand. -/
  scope : Scope

abbrev Compile := ReaderT Options (ExceptT QueryError (ExceptT Fault (StateM CompileState)))

namespace Compile

variable {α : Type}

def outcome (act : Compile α) (options : Options) (state : CompileState) :
    Except Fault (Except QueryError α) × CompileState := act options state

def fault (f : Fault) : Compile α := fun _ s => (.error f, s)

def ofFaulty : Except Fault α → Compile α
  | .ok a => return a
  | .error f => fault f

def draw (act : Supplied α) : Compile α := fun _ s =>
  match act s.supply with
  | .ok (a, supply) => (.ok (.ok a), { s with supply })
  | .error f => (.error f, s)

def attempt (act : Compile α) : Compile (Except QueryError α) := fun o s =>
  let (result, s) := act o s
  (result.map .ok, s)

def modifyScope (f : Scope → Scope) : Compile Unit := modify fun s => { s with scope := f s.scope }

def modifyRegistry (f : Registry → Registry) : Compile Unit :=
  modify fun s => { s with registry := f s.registry }

/-- Runs `act` in another scope, and gives its outcome and what became of that scope. -/
def inScope (inner : Scope) (act : Compile α) : Compile (Except QueryError α × Scope) := fun o s =>
  let (result, t) := act o { s with scope := inner }
  (result.map fun r => .ok (r, t.scope), { t with scope := s.scope })

def entryOf (id : FuncId) : Compile Entry := do
  match (← get).registry.find? id with
  | some entry => return entry
  | none => fault (.missingFunction id)

/-- Puts a query error off until the code is run, unless it concerns the whole query. -/
def deferred (result : Except QueryError Expr) : Compile Expr :=
  match result with
  | .ok e => return e
  | .error e => if e.isFatal then throw e else return .error e

end Compile

end QueryFunctions
