import QueryFunctions.Registry.Basic

/-! The state of a run: a stack of values cut into frames, the depth of nested calls, the focus, the
updates asked for so far, a random generator and the host that the run goes on in. Frames, depth and
focus are given back whether a computation ends with a value or with an error; a fault leaves the
state as it was at that point. The host is not the run's own: another thread may cancel the run at
any time, and how much of the native stack is used is up to the compiled program. So a run is given
all that it will find there, one moment for each time that it asks whether it was cancelled. -/
namespace QueryFunctions

/-- What a run finds outside of itself. -/
structure Moment where
  cancelled : Bool := false
  /-- The part of the native stack that is in use, in bytes. -/
  stackUse : Nat := 0

/-- The moments of a run from the present one on, of which the last goes on for ever. -/
structure Host where
  present : Moment := {}
  future : List Moment := []

namespace Host

/-- A host that never stands in the way of a run. -/
def quiet : Host := {}

def later : Host → Host
  | ⟨_, next :: future⟩ => ⟨next, future⟩
  | last => last

end Host

structure RunState where
  supply : Supply
  stack : Array Value
  /-- Where the current frame starts on the stack. -/
  base : Nat
  depth : Nat
  focus : Option Value
  /-- In the order in which they were asked for. -/
  updates : List Value
  random : UInt64
  host : Host

/-- What stays the same during a run. -/
structure RunSetting where
  registry : Registry
  options : Options

abbrev Run := ReaderT RunSetting (ExceptT QueryError (ExceptT Fault (StateM RunState)))

/-- The first state of a run. A generator never starts from zero. -/
def RunState.start (supply : Supply) (options : Options) (host : Host) (focus : Option Value) :
    RunState where
  supply
  stack := #[]
  base := 0
  depth := 0
  focus
  updates := []
  random := max options.seed 1
  host

namespace RunState

def later (s : RunState) : RunState := { s with host := s.host.later }

/-- The error of a call that is made here, if there is no room for it. -/
def overflow? (options : Options) (s : RunState) : Option QueryError :=
  if options.maxDepth ≤ s.depth then some (.stackOverflow options.maxDepth)
  else if options.stackSize < (s.host.present).stackUse then some (.stackOverflow s.depth)
  else none

theorem overflow?_eq_none_iff {options : Options} {s : RunState} : s.overflow? options = none ↔
    s.depth < options.maxDepth ∧ (s.host.present).stackUse ≤ options.stackSize := by
  grind [overflow?]

theorem exists_of_overflow? {options : Options} {s : RunState} {e : QueryError}
    (h : s.overflow? options = some e) : ∃ depth, e = .stackOverflow depth := by
  grind [overflow?]

end RunState

def nextRandom (x : UInt64) : UInt64 :=
  let x := x ^^^ (x <<< 13)
  let x := x ^^^ (x >>> 7)
  x ^^^ (x <<< 17)

/-- A number below `bound` from a generator state, or zero if there is none. -/
def boundedRandom (x : UInt64) (bound : Int64) : Int64 :=
  if bound ≤ 0 then 0 else (x % bound.toUInt64).toInt64

theorem nextRandom_zero : nextRandom 0 = 0 := by decide

namespace Run

variable {α : Type}

def outcome (act : Run α) (setting : RunSetting) (state : RunState) :
    Except Fault (Except QueryError α) × RunState := act setting state

def fault (f : Fault) : Run α := fun _ s => (.error f, s)

def draw (act : Supplied α) : Run α := fun _ s =>
  match act s.supply with
  | .ok (a, supply) => (.ok (.ok a), { s with supply })
  | .error f => (.error f, s)

def attempt (act : Run α) : Run (Except QueryError α) := fun setting s =>
  let (result, s) := act setting s
  (result.map .ok, s)

/-- Pushes a frame of empty slots and gives the start of the frame below. -/
def pushFrame (size : Nat) : Run Nat := modifyGet fun s =>
  (s.base, { s with stack := s.stack ++ Array.replicate size .empty, base := s.stack.size })

/-- Drops the current frame; the one that starts at `base` becomes current. -/
def popFrame (base : Nat) : Run Unit := modify fun s =>
  { s with stack := s.stack.shrink s.base, base }

def inFrame (size : Nat) (act : Run α) : Run α := do
  let base ← pushFrame size
  let result ← attempt act
  popFrame base
  ofExcept result

def get (slot : Nat) : Run Value := do
  let s ← getThe RunState
  match s.stack[s.base + slot]? with
  | some v => return v
  | none => fault (.slotOutsideFrame slot)

def set (slot : Nat) (v : Value) : Run Unit := do
  let s ← getThe RunState
  if s.base + slot < s.stack.size then
    modify fun s => { s with stack := s.stack.setIfInBounds (s.base + slot) v }
  else fault (.slotOutsideFrame slot)

def nextMoment : Run Moment := modifyGet fun s => (s.host.present, s.later)

def checkInterrupt : Run Unit := do if (← nextMoment).cancelled then throw .cancelled

/-- Fails if there is no room for one level more. -/
def checkOverflow : Run Unit := do
  match (← getThe RunState).overflow? (← read).options with
  | some e => throw e
  | none => return

/-- Runs `act` one level deeper, if the limits on depth and on the native stack allow. -/
def nested (act : Run α) : Run α := do
  checkOverflow
  modify fun s => { s with depth := s.depth + 1 }
  let result ← attempt act
  modify fun s => { s with depth := s.depth - 1 }
  ofExcept result

def focus (span : Span) : Run Value := do
  match (← getThe RunState).focus with
  | some v => return v
  | none => throw (.noFocus span)

def withoutFocus (act : Run α) : Run α := do
  let saved := (← getThe RunState).focus
  modify fun s => { s with focus := none }
  let result ← attempt act
  modify fun s => { s with focus := saved }
  ofExcept result

def addUpdate (v : Value) : Run Unit := modify fun s => { s with updates := s.updates ++ [v] }

def takeUpdates : Run (List Value) := modifyGet fun s => (s.updates, { s with updates := [] })

def random (bound : Int64) : Run Int64 := modifyGet fun s =>
  let x := nextRandom s.random
  (boundedRandom x bound, { s with random := x })

end Run

end QueryFunctions
