import QueryFunctions.Options.Basic
import QueryFunctions.Options.Document

/-! Options from the `compile` table of a TOML document. Missing keys keep their defaults, and
every key must be one of ours, so the table can be opened only once and in one way: by its header,
by dotted keys, or by a single assignment. -/
namespace QueryFunctions

namespace Options

/-- The keys in the order in which an array lists their values. -/
def keys : List String :=
  ["inline_limit", "mixed_updates", "tail_calls", "max_depth", "stack_size", "seed"]

def size? : Setting → Option Nat
  | .scalar (.integer i) => if 0 ≤ i then some i.toNat else none
  | _ => none

def switch? : Setting → Option Bool
  | .scalar (.boolean b) => some b
  | _ => none

/-- `o` with the value of one key, if there is such a key and the value fits it. -/
def assign? (o : Options) (key : String) (value : Setting) : Option Options :=
  match key with
  | "inline_limit" => (size? value).map fun n => { o with inlineLimit := n }
  | "mixed_updates" => (switch? value).map fun b => { o with mixedUpdates := b }
  | "tail_calls" => (switch? value).map fun b => { o with tailCalls := b }
  | "max_depth" => (size? value).map fun n => { o with maxDepth := n }
  | "stack_size" => (size? value).map fun n => { o with stackSize := n }
  | "seed" => (size? value).map fun n => { o with seed := .ofNat n }
  | _ => none

def ofFields? (fields : List (List String × Setting)) : Option Options := do
  let named ← fields.mapM fun (path, value) =>
    match path with
    | [key] => some (key, value)
    | _ => none
  guard (Document.apart (fields.map Prod.fst))
  named.foldlM (fun o (key, value) => o.assign? key value) {}

def ofSetting? : Setting → Option Options
  | .scalar _ => none
  | .array items => (keys.zip items).foldlM (fun o (key, value) => o.assign? key value) {}
  | .table fields => ofFields? fields

/-- The assignments below `path`, if nothing else is stated. -/
def assignmentsUnder? (path : List String) (statements : List Statement) :
    Option (List (List String × Setting)) :=
  statements.mapM fun
    | .assign key value =>
      if path.isPrefixOf key then some (key.drop path.length, value) else none
    | _ => none

def ofStatements? : List Statement → Option Options
  | [] => some {}
  | [.assign ["compile"] value] => ofSetting? value
  | .header ["compile"] :: rest => (assignmentsUnder? [] rest).bind ofFields?
  | statements => (assignmentsUnder? ["compile"] statements).bind ofFields?

def invalid : QueryError := .config "invalid options"

def unreadable (path reason : String) : QueryError := .config s!"cannot read '{path}': {reason}"

def ofDocument (text : String) : Except QueryError Options := do
  match (Document.parse? text).bind ofStatements? with
  | some options => options.validate; return options
  | none => throw invalid

theorem ofStatements?_nil : ofStatements? [] = some {} := rfl

end Options

end QueryFunctions
