/-! Places in query text. A span is a range of byte offsets of one file, a position the line and
byte column of an offset. Which text a file number stands for is the host's business. -/
namespace QueryFunctions

structure Span where
  start : Nat
  stop : Nat
  file : Nat
deriving DecidableEq, Repr

structure Position where
  line : Nat
  column : Nat
deriving DecidableEq, Repr

namespace Span

/-- The span of a node that no source text stands behind. -/
def synthetic : Span := ⟨0, 0, 0⟩

instance : Inhabited Span := ⟨synthetic⟩

/-- An empty range at offset 0 is taken for a synthetic one, whatever its file. -/
def isSynthetic (s : Span) : Bool := s.start == 0 && s.stop == 0

theorem isSynthetic_synthetic : synthetic.isSynthetic = true := rfl

end Span

def byteLength (cs : List Char) : Nat := cs.foldr (fun c n => c.utf8Size + n) 0

/-- The longest run of whole characters at the front of `cs` that fits into `bytes` bytes. -/
def wholeChars : Nat → List Char → List Char
  | _, [] => []
  | bytes, c :: cs =>
    if c.utf8Size ≤ bytes then c :: wholeChars (bytes - c.utf8Size) cs else []

theorem byteLength_wholeChars_le (bytes : Nat) (cs : List Char) :
    byteLength (wholeChars bytes cs) ≤ bytes := by
  induction cs generalizing bytes with
  | nil => simp [wholeChars, byteLength]
  | cons c cs ih =>
    have step := ih (bytes - c.utf8Size)
    unfold wholeChars
    split
    · simp only [byteLength, List.foldr_cons] at step ⊢
      omega
    · simp [byteLength]

theorem wholeChars_initial (bytes : Nat) (cs : List Char) : wholeChars bytes cs <+: cs := by
  induction cs generalizing bytes with
  | nil => simp [wholeChars]
  | cons c cs ih =>
    unfold wholeChars
    split
    · exact (List.prefix_cons_inj c).2 (ih _)
    · simp

/-- The position after the text `before`, both counts from 1. -/
def Position.after (before : List Char) : Position :=
  ⟨before.count '\n' + 1, byteLength (before.reverse.takeWhile (· != '\n')) + 1⟩

/-- The position of the start of a span. An offset inside a character counts as the start of that
character, one past the end as the end of the text. -/
def Span.position (s : Span) (source : String) : Position :=
  .after (wholeChars s.start source.toList)

end QueryFunctions
