import QueryFunctions.Registry.Basic

/-! Checks before compilation: every function that is mentioned is defined, and functions and
closures update if and only if they say so. -/
namespace QueryFunctions

namespace Registry

/-- What is wrong with the mention of an undefined function: its arity, if the name is known. -/
def unresolved (r : Registry) (e : Entry) : QueryError :=
  match r.entries.find? fun other => other.defined && other.name == e.name with
  | some other => .arity e.name other.arity e.arity e.firstCall
  | none => .resolution e.name e.arity (Name.closest? e.name r.names) e.firstCall

def check (r : Registry) : Except QueryError Unit :=
  match r.entries.find? (!·.defined) with
  | some e => .error (r.unresolved e)
  | none => .ok ()

theorem check_eq_ok_iff (r : Registry) :
    r.check = .ok () ↔ ∀ e ∈ r.entries, e.defined = true := by
  unfold check
  cases found : r.entries.find? (!·.defined) with
  | none => simpa using found
  | some e =>
    have missing : e.defined = false := by simpa using List.find?_some found
    have member := List.mem_of_find?_eq_some found
    simp only [reduceCtorEq, false_iff]
    intro all
    simp [all e member] at missing

end Registry

namespace Closure

def checkUpdates (c : Closure) (r : Registry) (o : Options) : Except QueryError Unit :=
  let updates := c.body.updates r.isUpdating
  if c.annotations.updating && !updates && !c.body.isVacuous then
    .error (.idleUpdatingClosure c.span)
  else if !c.annotations.updating && updates && !o.mixedUpdates then
    .error (.undeclaredUpdatesInClosure c.span)
  else .ok ()

end Closure

namespace Expr

/-- Checks every closure of an expression, outer ones first. -/
def checkUpdates (e : Expr) (r : Registry) (o : Options) : Except QueryError Unit :=
  e.nodes.forM fun
    | .closure c => c.checkUpdates r o
    | _ => .ok ()

end Expr

namespace Entry

def checkUpdates (e : Entry) (r : Registry) (o : Options) : Except QueryError Unit :=
  match e.body with
  | none => .ok ()
  | some body =>
    let updates := body.updates r.isUpdating
    if e.annotations.updating && !updates && !body.isVacuous then
      .error (.idleUpdatingFunction e.name e.arity e.span)
    else if !e.annotations.updating && updates && !o.mixedUpdates then
      .error (.undeclaredUpdates e.name e.arity e.span)
    else body.checkUpdates r o

end Entry

namespace Registry

def checkUpdates (r : Registry) (o : Options) : Except QueryError Unit :=
  r.entries.forM fun e => e.checkUpdates r o

end Registry

end QueryFunctions
