import QueryFunctions.SeqType.Basic

/-! The built-in functions and what is known of them statically. Drawing a random number is the
one non-deterministic act, and output the one update. -/
namespace QueryFunctions

/-- Static properties of code. -/
inductive Flag where
  /-- Performs updates. -/
  | upd
  /-- Two evaluations may differ. -/
  | ndt
  /-- Depends on the focus. -/
  | ctx
deriving DecidableEq, Repr

structure Flags where
  upd : Bool := false
  ndt : Bool := false
  ctx : Bool := false
deriving DecidableEq, Repr, Inhabited

namespace Flags

def contains (f : Flags) : Flag → Bool
  | .upd => f.upd
  | .ndt => f.ndt
  | .ctx => f.ctx

/-- `f` with non-determinism and focus dependence of a callee. -/
def withCallee (f callee : Flags) : Flags :=
  { f with ndt := f.ndt || callee.ndt, ctx := f.ctx || callee.ctx }

theorem withCallee_self (f : Flags) : f.withCallee f = f := by simp [withCallee]

end Flags

inductive Builtin where
  | forEach
  | filter
  | foldLeft
  | functionArity
  | functionName
  | count
  | random
  | error
  | output
deriving DecidableEq, Repr

namespace Builtin

def all : List Builtin :=
  [.forEach, .filter, .foldLeft, .functionArity, .functionName, .count, .random, .error, .output]

def name : Builtin → String
  | .forEach => "for-each"
  | .filter => "filter"
  | .foldLeft => "fold-left"
  | .functionArity => "function-arity"
  | .functionName => "function-name"
  | .count => "count"
  | .random => "random"
  | .error => "error"
  | .output => "output"

def qualifiedName (b : Builtin) : String := "fn:" ++ b.name

/-- The built-in of that name, with or without its namespace. -/
def ofName? (name : String) : Option Builtin :=
  all.find? fun b => name == b.name || name == b.qualifiedName

def flags : Builtin → Flags
  | .random => { ndt := true }
  | .output => { upd := true }
  | _ => {}

def params : Builtin → List SeqType
  | .forEach | .filter => [.item, (FuncType.untyped 1).toSeqType]
  | .foldLeft => [.item, .item, (FuncType.untyped 2).toSeqType]
  | .functionArity | .functionName => [.anyFunction]
  | .count | .error | .output => [.item]
  | .random => [.integer]

def ret : Builtin → SeqType
  | .functionArity | .count | .random => .integer
  | .output => .empty
  | _ => .item

def arity (b : Builtin) : Nat := b.params.length

def funcType (b : Builtin) : FuncType := ⟨b.params, b.ret, b.flags.upd⟩

theorem mem_all (b : Builtin) : b ∈ all := by cases b <;> decide

theorem arity_funcType (b : Builtin) : b.funcType.arity = b.arity := rfl

end Builtin

end QueryFunctions
