import QueryFunctions.QueryError.Basic

/-! Options of one query: how far calls are inlined, whether updates may be mixed with results,
and the limits and the seed of a run. -/
namespace QueryFunctions

structure Options where
  /-- The largest body, in expression nodes, that replaces a call of its function. -/
  inlineLimit : Nat := 50
  /-- Functions may update without saying so, and say so without updating. -/
  mixedUpdates : Bool := false
  /-- Calls in tail position run in constant depth. -/
  tailCalls : Bool := true
  /-- The deepest nesting of calls in a run. -/
  maxDepth : Nat := 1024
  /-- Bytes of native stack that a host grants a run. -/
  stackSize : Nat := 1048576
  seed : UInt64 := 0x2545f4914f6cdd1d
deriving DecidableEq, Repr, Inhabited

namespace Options

def minStackSize : Nat := 65536

def validate (o : Options) : Except QueryError Unit :=
  if o.maxDepth = 0 then throw (.config "max_depth must be at least 1")
  else if o.stackSize < minStackSize then
    throw (.config s!"stack_size must be at least {minStackSize}")
  else pure ()

theorem validate_eq_ok_iff (o : Options) :
    o.validate = .ok () ↔ 1 ≤ o.maxDepth ∧ minStackSize ≤ o.stackSize := by
  unfold validate
  split
  · simp_all [throw, throwThe, MonadExceptOf.throw]
  · split
    · simp [throw, throwThe, MonadExceptOf.throw]
      omega
    · simp [pure, Except.pure]
      omega

end Options

end QueryFunctions
