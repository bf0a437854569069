import QueryFunctions.Options.Scalar

/-! TOML documents, read as the list of their headers and assignments. Repeated keys are refused
here within an inline table only; what the statements add up to is not decided. -/
namespace QueryFunctions

namespace Options

inductive Setting where
  | scalar (value : Scalar)
  | array (items : List Setting)
  | table (fields : List (List String × Setting))
deriving Inhabited, Repr

inductive Statement where
  /-- `[path]` -/
  | header (path : List String)
  /-- `[[path]]` -/
  | arrayHeader (path : List String)
  | assign (path : List String) (value : Setting)
deriving Inhabited, Repr

namespace Document

/-- Values stand within fewer than this many arrays and tables, and a key has fewer parts. -/
def levelLimit : Nat := 80

/-- No path leads to the value of another or through it, so each value is stated once. -/
def apart : List (List String) → Bool
  | [] => true
  | path :: paths =>
    paths.all (fun other => !path.isPrefixOf other && !other.isPrefixOf path) && apart paths

/-- Reads from the front of the remaining text. -/
abbrev Reader := StateT (List Char) Option

def peek : Reader (Option Char) := return (← get).head?

def looksAt (text : String) : Reader Bool := return text.toList.isPrefixOf (← get)

def skip (count : Nat) : Reader Unit := modify (·.drop count)

def run (p : Char → Bool) : Reader (List Char) :=
  modifyGet fun cs => (cs.takeWhile p, cs.dropWhile p)

def one (p : Char → Bool) : Reader Char := do
  match ← get with
  | c :: cs => if p c then set cs; return c else failure
  | [] => failure

def expect (text : String) : Reader Unit := do
  if ← looksAt text then skip text.length else failure

def optional (text : String) : Reader Bool := do
  if ← looksAt text then skip text.length; return true else return false

def isBlank (c : Char) : Bool := c == ' ' || c == '\t'

def blanks : Reader Unit := discard (run isBlank)

/-- Tabs, and everything from the space on but the delete character. -/
def isText (c : Char) : Bool := c == '\t' || (' ' ≤ c && c != '\x7f')

def lineEnd : Reader Unit := do
  if (← get).isEmpty then return
  if ← optional "\n" then return
  expect "\r\n"

def comment : Reader Unit := do
  if ← optional "#" then discard (run isText)

/-- What may follow a header or an assignment in its line. -/
def restOfLine : Reader Unit := do blanks; comment; lineEnd

/-- Blanks, comments and line ends, as between the items of an array. -/
def gap : Nat → Reader Unit
  | 0 => failure
  | steps + 1 => do
    blanks
    match ← peek with
    | some '#' | some '\n' | some '\r' => comment; lineEnd; gap steps
    | _ => return

def hexNumber (width : Nat) : Reader Nat := do
  let ds := (← get).take width
  skip width
  Scalar.fixed? 16 width ds

/-- The character after a backslash. -/
def escape : Reader Char := do
  match ← one fun _ => true with
  | 'b' => return '\x08'
  | 't' => return '\t'
  | 'n' => return '\n'
  | 'f' => return '\x0c'
  | 'r' => return '\r'
  | '"' => return '"'
  | '\\' => return '\\'
  | 'u' => scalarValue (← hexNumber 4)
  | 'U' => scalarValue (← hexNumber 8)
  | _ => failure
where
  scalarValue (n : Nat) : Reader Char := if n.isValidChar then return .ofNat n else failure

/-- The rest of a `"` string in one line. -/
def basicString : Nat → Reader (List Char)
  | 0 => failure
  | steps + 1 => do
    match ← one isText with
    | '"' => return []
    | '\\' => return (← escape) :: (← basicString steps)
    | c => return c :: (← basicString steps)

/-- The rest of a string between single quotes in one line. -/
def literalString : Reader (List Char) := do
  let body ← run fun c => isText c && c != '\''
  expect "'"
  return body

/-- The rest of a string between triple quotes. Up to two quotes may stand before the closing
three; with `escapes`, a backslash starts an escape or hides a line end and the blanks after it. -/
def longString (quote : Char) (escapes : Bool) : Nat → Reader Unit
  | 0 => failure
  | steps + 1 => do
    match ← peek with
    | some '\n' | some '\r' => lineEnd; longString quote escapes steps
    | _ =>
      let quotes := (← run (· == quote)).length
      if 3 ≤ quotes then if quotes ≤ 5 then return else failure
      else if 0 < quotes then longString quote escapes steps
      else
        let c ← one isText
        if escapes && c == '\\' then
          if (← get).dropWhile isBlank |>.head? |>.any (fun c => c == '\n' || c == '\r') then
            blanks
          else discard escape
        longString quote escapes steps

def isBareKey (c : Char) : Bool := c.isAlphanum || c == '_' || c == '-'

def simpleKey (steps : Nat) : Reader String := do
  if ← optional "\"" then return .ofList (← basicString steps)
  if ← optional "'" then return .ofList (← literalString)
  match ← run isBareKey with
  | [] => failure
  | cs => return .ofList cs

def parts : Nat → Reader (List String)
  | 0 => failure
  | steps + 1 => do
    blanks
    let first ← simpleKey steps
    blanks
    if ← optional "." then return first :: (← parts steps) else return [first]

def key (steps : Nat) : Reader (List String) := do
  let path ← parts steps
  if path.length < levelLimit then return path else failure

def isWordChar (c : Char) : Bool := c.isAlphanum || ['+', '-', '_', '.', ':'].contains c

/-- An unquoted value. A date and a time may be written as two words. -/
def word : Reader Scalar := do
  let first ← run isWordChar
  let second ← if Scalar.isDate first then
      match ← get with
      | ' ' :: c :: _ => if c.isDigit then skip 1; run isWordChar else pure []
      | _ => pure []
    else pure []
  Scalar.ofWord? (if second.isEmpty then first else first ++ ' ' :: second)

/-- The level of what stands in an array or a table at `level`. -/
def below (level : Nat) : Reader Nat :=
  if level + 1 < levelLimit then return level + 1 else failure

mutual
def value : Nat → Nat → Reader Setting
  | 0, _ => failure
  | steps + 1, level => do
    if ← optional "\"\"\"" then longString '"' true steps; return .scalar .other
    if ← optional "'''" then longString '\'' false steps; return .scalar .other
    if ← optional "\"" then discard (basicString steps); return .scalar .other
    if ← optional "'" then discard literalString; return .scalar .other
    if ← optional "[" then return .array (← items steps (← below level))
    if ← optional "\x7b" then
      let inner ← below level
      blanks
      if ← optional "\x7d" then return .table []
      let found ← fields steps inner
      if apart (found.map Prod.fst) then return .table found else failure
    return .scalar (← word)

/-- The rest of an array; a comma may follow the last item. -/
def items : Nat → Nat → Reader (List Setting)
  | 0, _ => failure
  | steps + 1, level => do
    gap steps
    if ← optional "]" then return []
    let first ← value steps level
    gap steps
    if ← optional "," then return first :: (← items steps level)
    expect "]"
    return [first]

/-- The rest of an inline table; no comma may follow the last field. -/
def fields : Nat → Nat → Reader (List (List String × Setting))
  | 0, _ => failure
  | steps + 1, level => do
    let path ← key steps
    expect "="
    blanks
    let first ← value steps level
    blanks
    if ← optional "," then return (path, first) :: (← fields steps level)
    expect "\x7d"
    return [(path, first)]
end

def statement (steps : Nat) : Reader Statement := do
  if ← optional "[[" then
    let path ← key steps
    expect "]]"
    restOfLine
    return .arrayHeader path
  if ← optional "[" then
    let path ← key steps
    expect "]"
    restOfLine
    return .header path
  let path ← key steps
  expect "="
  blanks
  let setting ← value steps 0
  restOfLine
  return .assign path setting

def statements : Nat → Reader (List Statement)
  | 0 => failure
  | steps + 1 => do
    gap steps
    if (← get).isEmpty then return []
    return (← statement steps) :: (← statements steps)

/-- Every step but the last few of a nesting reads a character, so the length of the text bounds
them all. -/
def parse? (text : String) : Option (List Statement) := do
  let cs := text.toList
  let marked := cs.head? = some '\ufeff'
  let (found, _) ← (statements (2 * cs.length + 4)).run (if marked then cs.tail else cs)
  return found

end Document

end Options

end QueryFunctions
