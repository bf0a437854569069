import QueryFunctions.Options.Decimal

/-! The unquoted values of a TOML document: booleans, integers, floats and moments in time. A word
is read as a whole, since no character of one can follow another value directly. No option is a
float or a moment, so of those only the written form and the range are checked. -/
namespace QueryFunctions

namespace Options

inductive Scalar where
  | integer (value : Int)
  | boolean (value : Bool)
  /-- A well-formed value that no option can have. -/
  | other
deriving DecidableEq, Repr

namespace Scalar

/-- The digits of a run in which single underscores may stand between digits. -/
def digits? (isDigit : Char → Bool) : List Char → Option (List Char)
  | [] => none
  | [c] => if isDigit c then some [c] else none
  | c :: '_' :: cs => if isDigit c then (digits? isDigit cs).map (c :: ·) else none
  | c :: cs => if isDigit c then (digits? isDigit cs).map (c :: ·) else none

def digitValue (c : Char) : Nat :=
  if c.isDigit then c.toNat - '0'.toNat
  else if 'a' ≤ c && c ≤ 'f' then c.toNat - 'a'.toNat + 10
  else c.toNat - 'A'.toNat + 10

def isDigitOf (base : Nat) (c : Char) : Bool :=
  (c.isDigit || 'a' ≤ c && c ≤ 'f' || 'A' ≤ c && c ≤ 'F') && digitValue c < base

def natural? (base : Nat) (cs : List Char) : Option Nat :=
  (digits? (isDigitOf base) cs).map (·.foldl (fun n c => n * base + digitValue c) 0)

def decimal? (cs : List Char) : Option Nat := do
  let ds ← digits? Char.isDigit cs
  if ds.head? == some '0' && ds.length != 1 then none else natural? 10 cs

def within64 (i : Int) : Option Int :=
  if Int64.minValue.toInt ≤ i ∧ i ≤ Int64.maxValue.toInt then some i else none

def integer? : List Char → Option Int
  | '0' :: 'x' :: ds => (natural? 16 ds).bind (within64 ·)
  | '0' :: 'o' :: ds => (natural? 8 ds).bind (within64 ·)
  | '0' :: 'b' :: ds => (natural? 2 ds).bind (within64 ·)
  | '-' :: ds => (decimal? ds).bind (within64 <| -·)
  | '+' :: ds => (decimal? ds).bind (within64 ·)
  | ds => (decimal? ds).bind (within64 ·)

def dropSign : List Char → List Char
  | '+' :: cs | '-' :: cs => cs
  | cs => cs

/-- `cs` cut before the first character in `marks`, and what follows that character. -/
def cutAt (marks : List Char) (cs : List Char) : List Char × Option (List Char) :=
  (cs.takeWhile (!marks.contains ·), (cs.dropWhile (!marks.contains ·)).tail?)

def exponent? : List Char → Option Int
  | '-' :: ds => (natural? 10 ds).map fun n => -n
  | '+' :: ds | ds => (natural? 10 ds).map fun n => n

/-- A number with a fraction, an exponent or both. -/
def fractional? (unsigned : List Char) : Option Decimal := do
  let (mantissa, power) := cutAt ['e', 'E'] unsigned
  let (whole, fraction) := cutAt ['.'] mantissa
  guard (fraction.isSome || power.isSome)
  let units ← decimal? whole
  let places ← (fraction.map (digits? Char.isDigit)).getD (some [])
  let exponent ← (power.map exponent?).getD (some 0)
  return ⟨places.foldl (fun n c => n * 10 + digitValue c) units, exponent - places.length⟩

/-- Infinity may be written out, and numbers below zero may be as large as they like; a number
above zero that no double is near to is not a float. -/
def isFloat (word : List Char) : Bool :=
  let unsigned := dropSign word
  unsigned == "inf".toList || unsigned == "nan".toList ||
    (fractional? unsigned).any fun number => word.head? == some '-' || !number.overflows

/-- A number of exactly `width` digits. -/
def fixed? (base width : Nat) (cs : List Char) : Option Nat :=
  if cs.length = width && cs.all (isDigitOf base) then natural? base cs else none

def daysIn (year month : Nat) : Nat :=
  if month = 2 then
    if year % 4 = 0 ∧ (year % 100 ≠ 0 ∨ year % 400 = 0) then 29 else 28
  else if month = 4 ∨ month = 6 ∨ month = 9 ∨ month = 11 then 30 else 31

def isDate (cs : List Char) : Bool :=
  let number (first width : Nat) := fixed? 10 width ((cs.drop first).take width)
  match number 0 4, number 5 2, number 8 2 with
  | some year, some month, some day =>
    cs.length == 10 && cs[4]? == some '-' && cs[7]? == some '-' &&
      1 ≤ month && month ≤ 12 && 1 ≤ day && day ≤ daysIn year month
  | _, _, _ => false

def isHourMinute (cs : List Char) : Bool :=
  match fixed? 10 2 (cs.take 2), cs[2]?, fixed? 10 2 (cs.drop 3) with
  | some hour, some ':', some minute => hour ≤ 23 && minute ≤ 59
  | _, _, _ => false

def isTime (cs : List Char) : Bool :=
  let (seconds, fraction) := cutAt ['.'] (cs.drop 6)
  isHourMinute (cs.take 5) && cs[5]? == some ':' && (fixed? 10 2 seconds).any (· ≤ 60) &&
    fraction.all fun ds => !ds.isEmpty && ds.all Char.isDigit

def isOffset : List Char → Bool
  | ['Z'] | ['z'] => true
  | '+' :: cs | '-' :: cs => isHourMinute cs
  | _ => false

def isOffsetTime (cs : List Char) : Bool :=
  let isMark : Char → Bool := ['Z', 'z', '+', '-'].contains
  isTime (cs.takeWhile (!isMark ·)) &&
    let offset := cs.dropWhile (!isMark ·)
    offset.isEmpty || isOffset offset

/-- A date, a time, or both with an optional offset. -/
def isMoment (word : List Char) : Bool :=
  isTime word || isDate word ||
    isDate (word.take 10) && [some 'T', some 't', some ' '].contains word[10]? &&
      isOffsetTime (word.drop 11)

def ofWord? (word : List Char) : Option Scalar :=
  if word = "true".toList then some (.boolean true)
  else if word = "false".toList then some (.boolean false)
  else match integer? word with
    | some i => some (.integer i)
    | none => if isFloat word || isMoment word then some .other else none

end Scalar

end Options

end QueryFunctions
