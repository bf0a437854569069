import QueryFunctions.Source.Span
import QueryFunctions.SeqType.Text

/-! The errors of building, compiling and running queries: their causes, W3C or engine codes, and
wording. The host may raise `type`, `dynamic` and `user` errors with words of its own; the words
that the library itself uses are the named errors below. -/
namespace QueryFunctions

inductive QueryError where
  | arity (name : String) (expected actual : Nat) (span : Span)
  | resolution (name : String) (arity : Nat) (suggestion : Option String) (span : Span)
  /-- Updates where none are allowed. -/
  | notUpdating (message : String) (span : Span)
  /-- No updates where some are required. -/
  | updatingExpected (message : String) (span : Span)
  | duplicate (name : String) (arity : Nat) (span : Span)
  | unknownVariable (name : String) (span : Span)
  | type (message : String) (span : Span)
  | dynamic (code message : String) (span : Span)
  | user (message : String) (span : Span)
  | cancelled
  | stackOverflow (depth : Nat)
  | config (message : String)
deriving DecidableEq, Repr

namespace QueryError

def code : QueryError → String
  | .arity _ _ _ _ | .type _ _ => "XPTY0004"
  | .resolution _ _ _ _ => "XPST0017"
  | .notUpdating _ _ => "XUST0001"
  | .updatingExpected _ _ => "XUST0002"
  | .duplicate _ _ _ => "XQST0034"
  | .unknownVariable _ _ => "XPST0008"
  | .dynamic code _ _ => code
  | .user _ _ => "FOER0000"
  | .cancelled => "BASX0003"
  | .stackOverflow _ => "BASX0005"
  | .config _ => "BASX0001"

def description : QueryError → String
  | .arity name expected actual _ =>
    s!"{name}: {actual} argument(s) supplied, {expected} expected"
  | .resolution name n none _ => s!"Unknown function: {name}#{n}"
  | .resolution name n (some other) _ => s!"Unknown function: {name}#{n}; did you mean '{other}'?"
  | .duplicate name n _ => s!"Duplicate declaration of function {name}#{n}"
  | .unknownVariable name _ => s!"Undeclared variable: ${name}"
  | .notUpdating message _ | .updatingExpected message _ | .type message _
  | .dynamic _ message _ | .user message _ => message
  | .cancelled => "Query was interrupted"
  | .stackOverflow depth => s!"Stack overflow: more than {depth} nested function calls"
  | .config message => s!"Configuration error: {message}"

/-- Errors of the engine itself are told without their code. -/
def message (e : QueryError) : String :=
  match e with
  | .cancelled | .stackOverflow _ | .config _ => e.description
  | _ => s!"[{e.code}] {e.description}"

def span? : QueryError → Option Span
  | .arity _ _ _ span | .resolution _ _ _ span | .notUpdating _ span | .updatingExpected _ span
  | .duplicate _ _ span | .unknownVariable _ span | .type _ span | .dynamic _ _ span
  | .user _ span => some span
  | .cancelled | .stackOverflow _ | .config _ => none

/-- Errors that concern the whole query. They are never put off until a function body is run. -/
def isFatal : QueryError → Bool
  | .resolution _ _ _ _ | .duplicate _ _ _ | .notUpdating _ _ | .updatingExpected _ _
  | .cancelled | .config _ => true
  | _ => false

def integerExpected (found : String) (span : Span) : QueryError :=
  .type s!"xs:integer expected, {found} found" span

def booleanExpected (found : String) (span : Span) : QueryError :=
  .type s!"xs:boolean expected, {found} found" span

def functionExpected (found : String) (span : Span) : QueryError :=
  .type s!"function(*) expected, {found} found" span

def singleItemExpected (function : String) (count : Nat) (span : Span) : QueryError :=
  .type s!"{function} returned {count} items, at most one expected" span

def cannotTreat (found : String) (type : SeqType) (span : Span) : QueryError :=
  .type s!"Cannot treat {found} as {type.text}" span

def cannotPromote (function found : String) (type : SeqType) (parameter : String)
    (span : Span) : QueryError :=
  .type s!"{function}: cannot promote {found} to {type.text} for ${parameter}" span

def cannotCompare (left right : String) (span : Span) : QueryError :=
  .type s!"Cannot compare {left} with {right}" span

def functionsCompared (span : Span) : QueryError :=
  .dynamic "FOTY0013" "Functions cannot be compared" span

def noBooleanValue (found : String) (span : Span) : QueryError :=
  .dynamic "FORG0006" s!"Effective boolean value not defined for {found}" span

def divisionByZero (span : Span) : QueryError := .dynamic "FOAR0001" "Division by zero" span

def integerOverflow (span : Span) : QueryError := .dynamic "FOAR0002" "Integer overflow" span

def noFocus (span : Span) : QueryError := .dynamic "XPDY0002" "No context value bound" span

/-- An updating function at a call that is not declared updating. -/
def updatingCallee (function : String) (span : Span) : QueryError :=
  .notUpdating s!"Updating function {function} called by a non-updating expression" span

/-- An updating call of a function that is not updating. -/
def calleeNotUpdating (function : String) (span : Span) : QueryError :=
  .updatingExpected s!"Function {function} is not updating" span

def idleUpdatingClosure (span : Span) : QueryError :=
  .updatingExpected "Updating function expression does not perform updates" span

def undeclaredUpdatesInClosure (span : Span) : QueryError :=
  .notUpdating "Function expression performs updates but is not declared updating" span

def idleUpdatingFunction (name : String) (arity : Nat) (span : Span) : QueryError :=
  .updatingExpected s!"Function {name}#{arity} is declared updating but does not perform updates"
    span

def undeclaredUpdates (name : String) (arity : Nat) (span : Span) : QueryError :=
  .notUpdating s!"Function {name}#{arity} performs updates but is not declared updating" span

def namelessDeclaration : QueryError := .config "a declared function needs a name"

theorem cancelled_isFatal : cancelled.isFatal = true := rfl

/-- Only errors of the engine have no place in the text. -/
theorem span?_eq_none_iff (e : QueryError) :
    e.span? = none ↔ e = .cancelled ∨ (∃ d, e = .stackOverflow d) ∨ ∃ m, e = .config m := by
  cases e <;> simp [span?]

end QueryError

end QueryFunctions
