import QueryFunctions.QueryError.Basic

/-! What a terminal is told about an error: one plain line, or a titled report for an error with a
place in the text. The drawing of the excerpt between title and help is left to the host. -/
namespace QueryFunctions

namespace QueryError

def category : QueryError → String
  | .arity _ _ _ _ => "arity error"
  | .resolution _ _ _ _ | .unknownVariable _ _ => "resolution error"
  | .notUpdating _ _ | .updatingExpected _ _ => "updating error"
  | .duplicate _ _ _ => "declaration error"
  | .type _ _ => "type error"
  | _ => "error"

/-- The one-line form, for errors without a place in the text. -/
def plainLine (e : QueryError) (file : Option String) : String :=
  match file with
  | some name => s!"{name}: error: {e.message}\n"
  | none => s!"error: {e.message}\n"

/-- The head of a report and the advice under its excerpt. -/
structure Report where
  place : Option String
  title : String
  help : Option String
deriving DecidableEq, Repr

/-- An excerpt can be drawn if the span, in characters, starts within the text or at its end and
goes at most one beyond. The empty text has no line to draw. -/
def hasExcerpt (span : Span) (source : String) : Bool :=
  !source.isEmpty && span.start ≤ source.length && span.stop ≤ source.length + 1

/-- Advice stands under the excerpt and is lost together with it. -/
def help? (e : QueryError) (span : Span) (source : String) : Option String :=
  match e with
  | .resolution _ _ (some other) _ =>
    if hasExcerpt span source then some s!"a function named '{other}' exists" else none
  | _ => none

/-- What a terminal shows for an error. -/
inductive Notice where
  | line (text : String)
  | report (report : Report)
  /-- No label can mark a span that stops before it starts, so nothing is shown. -/
  | unmarkable
deriving DecidableEq, Repr

def notice (e : QueryError) (source : String) (file : Option String) : Notice :=
  match e.span?.filter (!·.isSynthetic) with
  | none => .line (e.plainLine file)
  | some span =>
    if span.stop < span.start then .unmarkable
    else
      let position := span.position source
      .report {
        place := file.map fun name => s!"--> {name}:{position.line}:{position.column}"
        title := s!"[{e.code}] Error: {e.category}"
        help := e.help? span source }

theorem notice_synthetic (name : String) (source : String) (file : Option String) :
    (unknownVariable name .synthetic).notice source file =
      .line ((unknownVariable name .synthetic).plainLine file) := rfl

end QueryError

end QueryFunctions
