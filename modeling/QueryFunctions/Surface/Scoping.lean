import QueryFunctions.Scope.Basic

/-! Lexical scoping while functions are built. Each function body has a frame; a name that it does
not bind is looked up in the frames around it and captured on the way back, once in each frame.
Bodies of declared functions capture nothing. -/
namespace QueryFunctions

structure Frame where
  scope : Scope := {}
  /-- Visible names, innermost binding first and captured ones last. -/
  names : List (String × VarId) := []
  /-- Captured variables with the variables of the frame around that they stand for, in order of
  first use. -/
  captures : List (VarId × VarId) := []
  capturing : Bool := false

namespace Frame

def find? (f : Frame) (name : String) : Option VarId :=
  (f.names.find? (·.1 == name)).map Prod.snd

/-- A pinned variable that stands for `outer`, visible behind all other bindings. -/
def capture (f : Frame) (name : String) (outer : VarId) : StateM Supply (VarId × Frame) := do
  let (id, scope) ← f.scope.declare name none true
  return (id, { f with
    scope, names := f.names ++ [(name, id)], captures := f.captures ++ [(id, outer)] })

/-- A parameter, which hides earlier ones of its name. -/
def addParam (f : Frame) (name : String) (type : Option SeqType) :
    StateM Supply (VarId × Frame) := do
  let (id, scope) ← f.scope.declare name type true
  return (id, { f with scope, names := (name, id) :: f.names })

def openLet (f : Frame) (name : String) : StateM Supply (VarId × Frame) := do
  let (id, scope) ← f.scope.declare name none false
  return (id, { f with scope, names := (name, id) :: f.names })

def closeLet (f : Frame) (mark : Nat) : Frame :=
  { f with names := f.names.tail, scope := f.scope.closeRegion mark }

/-- The variable that `name` stands for in `f`, with `f` and the frames around it after the
capture. -/
def resolve (name : String) (f : Frame) :
    List Frame → StateM Supply (Option (VarId × Frame × List Frame))
  | [] => return (f.find? name).map fun id => (id, f, [])
  | next :: rest => do
    match f.find? name with
    | some id => return some (id, f, next :: rest)
    | none =>
      if !f.capturing then return none
      match ← resolve name next rest with
      | none => return none
      | some (outer, next, rest) =>
        let (id, f) ← f.capture name outer
        return some (id, f, next :: rest)

theorem find?_addParam_run (f : Frame) (name : String) (type : Option SeqType) (s : Supply) :
    ((f.addParam name type).run s).1.2.find? name = some ((f.addParam name type).run s).1.1 := by
  have first : ((f.addParam name type).run s).1.2.names =
      (name, ((f.addParam name type).run s).1.1) :: f.names := rfl
  simp [find?, first]

end Frame

end QueryFunctions
