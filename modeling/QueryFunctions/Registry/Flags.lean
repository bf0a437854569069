import QueryFunctions.Registry.Basic
import QueryFunctions.Expr.Sites

/-! Non-determinism and focus dependence travel from callees to callers. A function that was still
being compiled when its caller was done had no flags to give yet, so they are spread along the
calls of all compiled bodies until nothing changes. -/
namespace QueryFunctions

namespace Registry

def callEdges (r : Registry) : List (FuncId × List FuncId) :=
  r.entries.zipIdx.filterMap fun (e, index) =>
    if e.stage = .compiled then e.body.map fun body => (⟨index⟩, body.callees) else none

def flagAt (flags : List Flags) (id : FuncId) : Flags := flags[id.index]?.getD {}

/-- One pass over all callers. -/
def spread (edges : List (FuncId × List FuncId)) (flags : List Flags) : List Flags :=
  edges.foldl (fun flags (caller, callees) =>
    let gathered := callees.foldl (fun f callee => f.withCallee (flagAt flags callee))
      (flagAt flags caller)
    flags.set caller.index gathered) flags

/-- Passes until nothing changes, but at most `passes` of them. -/
def saturate (edges : List (FuncId × List FuncId)) : Nat → List Flags → List Flags
  | 0, flags => flags
  | passes + 1, flags =>
    let next := spread edges flags
    if next = flags then flags else saturate edges passes next

theorem spread_length (edges : List (FuncId × List FuncId)) (flags : List Flags) :
    (spread edges flags).length = flags.length := by
  unfold spread
  induction edges generalizing flags with
  | nil => rfl
  | cons edge edges ih => simp [ih]

/-- The flags of all functions after propagation. A pass that changes anything turns on one of two
flags of some function, which bounds the number of passes. -/
def propagatedFlags (r : Registry) : List Flags :=
  saturate r.callEdges (2 * r.entries.length + 1) (r.entries.map (·.flags))

/-- Spreads flags and brings the call sites in compiled bodies up to date. -/
def propagateFlags (r : Registry) : Registry :=
  let flags := r.propagatedFlags
  let compiled := r.callEdges.map Prod.fst
  let refreshed (e : Entry) (index : Nat) : Entry :=
    let body := if compiled.contains ⟨index⟩ then
        e.body.map (·.refreshCalls fun id => flags[id.index]?)
      else e.body
    { e with flags := flagAt flags ⟨index⟩, body }
  { r with entries := r.entries.zipIdx.map fun (e, index) => refreshed e index }

end Registry

end QueryFunctions
