import QueryFunctions.Letter.LowerTable
import QueryFunctions.Letter.CaseTable

/-! Lower case of whole words. Two letters need more than the simple mapping: a dotted capital I
keeps its dot as a mark of its own, and a capital sigma becomes the final form where a word ends. -/
namespace QueryFunctions

namespace Letter

def inRanges (ranges : List (Nat × Nat)) (c : Char) : Bool :=
  ranges.any fun (first, last) => first ≤ c.toNat && c.toNat ≤ last

def isCased : Char → Bool := inRanges casedRanges

def isCaseIgnorable : Char → Bool := inRanges caseIgnorableRanges

def LowerRun.holds (r : LowerRun) (n : Nat) : Bool :=
  r.first ≤ n && n ≤ r.last && (n - r.first) % r.step == 0

def simpleLower (c : Char) : Char :=
  match lowerRuns.find? (·.holds c.toNat) with
  | some r => .ofNat (c.toNat - r.first + r.image)
  | none => c

/-- The first character that case does not ignore is cased. -/
def touchesCased (cs : List Char) : Bool := (cs.dropWhile isCaseIgnorable).head?.any isCased

/-- `c` in lower case, with the text before it in reverse and the text after it. -/
def lower (before : List Char) (c : Char) (after : List Char) : List Char :=
  if c = 'İ' then ['i', '\u0307']
  else if c = 'Σ' then
    if touchesCased before && !touchesCased after then ['ς'] else ['σ']
  else [simpleLower c]

def lowerFrom : (before cs : List Char) → List Char
  | _, [] => []
  | before, c :: cs => lower before c cs ++ lowerFrom (c :: before) cs

def lowerCase (cs : List Char) : List Char := lowerFrom [] cs

end Letter

end QueryFunctions
