import QueryFunctions.Registry.Basic

/-! What a host is told about a function, and the same as JSON text: two blanks for each level of
nesting, each member in a line of its own. -/
namespace QueryFunctions

structure ParamInfo where
  name : String
  type : String
deriving DecidableEq, Repr

structure FunctionInfo where
  name : Option String
  arity : Nat
  params : List ParamInfo
  returns : String
  annotations : Annotations
  span : Span
deriving DecidableEq, Repr

namespace FuncItem

def info (f : FuncItem) : FunctionInfo where
  name := f.name
  arity := f.arity
  params := f.type.params.zipIdx.map fun (type, i) =>
    ⟨(f.paramName? i).getD s!"arg{i + 1}", type.text⟩
  returns := f.type.ret.text
  annotations := f.annotations
  span := f.span

theorem info_params_length (f : FuncItem) : f.info.params.length = f.arity := by
  simp [info, arity, FuncType.arity]

end FuncItem

namespace Entry

def info (e : Entry) : FunctionInfo where
  name := some e.name
  arity := e.arity
  params := e.paramVariables.map fun v => ⟨v.name, (v.declared.getD .item).text⟩
  returns := e.retType.text
  annotations := e.annotations
  span := e.span

end Entry

namespace Registry

/-- The functions that are defined, in order of first mention. -/
def info (r : Registry) : List FunctionInfo := (r.entries.filter (·.defined)).map (·.info)

end Registry

namespace FunctionInfo

def hexDigit (n : Nat) : Char := "0123456789abcdef".toList[n]?.getD '0'

/-- A character inside a JSON string. Only quotes, backslashes and control characters below the
space are escaped. -/
def escape (c : Char) : List Char :=
  match c with
  | '"' => ['\\', '"']
  | '\\' => ['\\', '\\']
  | '\n' => ['\\', 'n']
  | '\r' => ['\\', 'r']
  | '\t' => ['\\', 't']
  | '\x08' => ['\\', 'b']
  | '\x0c' => ['\\', 'f']
  | c =>
    if c.toNat < 32 then ['\\', 'u', '0', '0', hexDigit (c.toNat / 16), hexDigit (c.toNat % 16)]
    else [c]

def quoted (s : String) : String := "\"" ++ .ofList (s.toList.flatMap escape) ++ "\""

/-- A bracketed list whose members stand `depth` levels deep. -/
def block (opening closing : String) (depth : Nat) (members : List String) : String :=
  if members.isEmpty then opening ++ closing
  else
    let line := "\n" ++ String.ofList (.replicate (2 * depth) ' ')
    let last := "\n" ++ String.ofList (.replicate (2 * (depth - 1)) ' ')
    opening ++ line ++ String.intercalate ("," ++ line) members ++ last ++ closing

def arrayText (depth : Nat) (items : List String) : String := block "[" "]" depth items

def objectText (depth : Nat) (members : List (String × String)) : String :=
  block "\x7b" "\x7d" depth (members.map fun (key, text) => quoted key ++ ": " ++ text)

def orNull (text : Option String) : String := text.getD "null"

def boolText (b : Bool) : String := if b then "true" else "false"

def paramText (depth : Nat) (p : ParamInfo) : String :=
  objectText depth [("name", quoted p.name), ("type", quoted p.type)]

def annotationsText (depth : Nat) (a : Annotations) : String :=
  objectText depth
    [("updating", boolText a.updating), ("inline", orNull (a.inlineLimit.map toString))]

def spanText (depth : Nat) (s : Span) : String :=
  objectText depth
    [("start", toString s.start), ("end", toString s.stop), ("file_id", toString s.file)]

def text (depth : Nat) (i : FunctionInfo) : String :=
  objectText depth
    [("name", orNull (i.name.map quoted)), ("arity", toString i.arity),
      ("params", arrayText (depth + 1) (i.params.map (paramText (depth + 2)))),
      ("returns", quoted i.returns), ("annotations", annotationsText (depth + 1) i.annotations),
      ("span", spanText (depth + 1) i.span)]

def listText (infos : List FunctionInfo) : String := arrayText 1 (infos.map (text 2))

theorem listText_nil : listText [] = "[]" := by simp [listText, arrayText, block]

end FunctionInfo

end QueryFunctions
