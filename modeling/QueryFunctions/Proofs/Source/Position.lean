import Mathlib.Data.Prod.Lex
import Mathlib.Data.Set.Card
import QueryFunctions.Source.Span

/-! Positions against offsets. A text is passed character by character: each takes the position one
column or more to the right, or to the start of the next line. So a position counts the newlines that
were passed and the bytes since the last of them, it goes up with the offset, and tells which offset it
is the position of. -/
namespace QueryFunctions

theorem byteLength_cons (c : Char) (cs : List Char) :
    byteLength (c :: cs) = c.utf8Size + byteLength cs := rfl

theorem byteLength_append (cs ds : List Char) :
    byteLength (cs ++ ds) = byteLength cs + byteLength ds := by
  induction cs with
  | nil => simp [byteLength]
  | cons c cs ih => rw [List.cons_append, byteLength_cons, byteLength_cons, ih, Nat.add_assoc]

theorem byteLength_concat (cs : List Char) (c : Char) :
    byteLength (cs ++ [c]) = byteLength cs + c.utf8Size := byteLength_append cs [c]

theorem byteLength_toList (s : String) : byteLength s.toList = s.utf8ByteSize := by
  have ofList : ∀ cs, byteLength cs = (String.ofList cs).utf8ByteSize := by
    intro cs
    induction cs with
    | nil => rfl
    | cons c cs ih =>
      rw [byteLength_cons, ih, String.ofList_cons, String.utf8ByteSize_append,
        String.utf8ByteSize_singleton]
  rw [ofList, String.ofList_toList]

theorem eq_nil_of_byteLength {cs : List Char} (none : byteLength cs = 0) : cs = [] := by
  cases cs with
  | nil => rfl
  | cons c cs =>
    have := c.utf8Size_pos
    rw [byteLength_cons] at none
    omega

theorem isValid_iff {source : String} {p : ℕ} :
    (String.Pos.Raw.mk p).IsValid source ↔
      ∃ before after, source.toList = before ++ after ∧ byteLength before = p := by
  rw [String.Pos.Raw.isValid_iff_exists_append]
  constructor
  · rintro ⟨before, after, rfl, same⟩
    exact ⟨before.toList, after.toList, String.toList_append,
      (byteLength_toList before).trans (congrArg String.Pos.Raw.byteIdx same).symm⟩
  · rintro ⟨before, after, split, rfl⟩
    refine ⟨.ofList before, .ofList after, ?_, ?_⟩
    · rw [← String.ofList_append, ← split, String.ofList_toList]
    · rw [String.Pos.Raw.ext_iff, String.byteIdx_rawEndPos, ← byteLength_toList, String.toList_ofList]

/-- A newline starts at the offset. -/
def NewlineAt (source : String) (q : ℕ) : Prop :=
  ∃ before after, source = before ++ "\n" ++ after ∧ before.utf8ByteSize = q

def newlines (cs : List Char) : Set ℕ :=
  {q | ∃ before after, cs = before ++ '\n' :: after ∧ byteLength before = q}

theorem newlineAt_iff {source : String} {q : ℕ} : NewlineAt source q ↔ q ∈ newlines source.toList := by
  constructor
  · rintro ⟨before, after, rfl, rfl⟩
    exact ⟨before.toList, after.toList, by simp, byteLength_toList before⟩
  · rintro ⟨before, after, split, rfl⟩
    refine ⟨.ofList before, .ofList after, ?_, ?_⟩
    · rw [← String.toList_inj, split]
      simp
    · rw [← byteLength_toList, String.toList_ofList]

theorem newlines_nil : newlines [] = ∅ := by
  ext q
  simp [newlines]

theorem lt_of_mem_newlines {cs : List Char} {q : ℕ} (h : q ∈ newlines cs) : q < byteLength cs := by
  obtain ⟨before, after, rfl, rfl⟩ := h
  have : '\n'.utf8Size = 1 := rfl
  rw [byteLength_append, byteLength_cons]
  omega

theorem finite_newlines (cs : List Char) : (newlines cs).Finite :=
  (Set.finite_lt_nat (byteLength cs)).subset fun _ => lt_of_mem_newlines

theorem newlines_concat (cs : List Char) (c : Char) :
    newlines (cs ++ [c]) = if c = '\n' then insert (byteLength cs) (newlines cs) else newlines cs := by
  have last : ∀ q, q ∈ newlines (cs ++ [c]) ↔ c = '\n' ∧ q = byteLength cs ∨ q ∈ newlines cs := by
    intro q
    constructor
    · rintro ⟨before, after, split, rfl⟩
      rcases List.eq_nil_or_concat after with rfl | ⟨after, d, rfl⟩
      · obtain ⟨rfl, same⟩ := List.append_inj' split rfl
        exact .inl ⟨List.singleton_inj.1 same, rfl⟩
      · rw [List.concat_eq_append, ← List.cons_append, ← List.append_assoc] at split
        exact .inr ⟨before, after, (List.append_inj' split rfl).1, rfl⟩
    · rintro (⟨rfl, rfl⟩ | ⟨before, after, rfl, rfl⟩)
      · exact ⟨cs, [], rfl, rfl⟩
      · exact ⟨before, after ++ [c], by simp, rfl⟩
  ext q
  rw [last]
  split <;> simp [*]

/-- The newlines in the first part of a text are those before the offset where that part ends. -/
theorem newlines_before {source : String} {before after : List Char}
    (split : source.toList = before ++ after) :
    {q | NewlineAt source q ∧ q < byteLength before} = newlines before := by
  ext q
  rw [Set.mem_ofPred_eq, newlineAt_iff, split]
  constructor
  · rintro ⟨⟨front, back, eq, rfl⟩, inside⟩
    -- The newline stands before the cut or after it, where its offset would be too large.
    rcases List.append_eq_append_iff.1 eq with ⟨more, rfl, -⟩ | ⟨more, rfl, tail⟩
    · rw [byteLength_append] at inside
      omega
    · cases more with
      | nil =>
        rw [List.append_nil] at inside
        omega
      | cons c more =>
        obtain ⟨rfl, -⟩ := List.cons.inj tail
        exact ⟨front, more, rfl, rfl⟩
  · intro h
    refine ⟨?_, lt_of_mem_newlines h⟩
    obtain ⟨front, back, rfl, rfl⟩ := h
    exact ⟨front, back ++ after, by simp, rfl⟩

/-- Where a line starts: just after the last newline, or at 0 if there is none. -/
inductive StartsAfter (newlines : Set ℕ) : ℕ → Prop
  | first : newlines = ∅ → StartsAfter newlines 0
  | next {q : ℕ} : IsGreatest newlines q → StartsAfter newlines (q + 1)

namespace Position

theorem after_nil : after [] = ⟨1, 1⟩ := rfl

theorem after_concat (cs : List Char) (c : Char) :
    after (cs ++ [c]) =
      if c = '\n' then ⟨(after cs).line + 1, 1⟩
      else ⟨(after cs).line, (after cs).column + c.utf8Size⟩ := by
  by_cases newline : c = '\n'
  · simp [after, newline, byteLength]
  · simp [after, newline, byteLength_cons]
    omega

theorem after_line (cs : List Char) : (after cs).line = (newlines cs).ncard + 1 := by
  induction cs using List.reverseRecOn with
  | nil => simp [after_nil, newlines_nil]
  | append_singleton cs c ih =>
    rw [after_concat, newlines_concat]
    split
    · rw [Set.ncard_insert_of_notMem (fun mem => (lt_of_mem_newlines mem).false)
        (finite_newlines cs), ← ih]
    · exact ih

theorem after_column (cs : List Char) :
    ∃ start, StartsAfter (newlines cs) start ∧ byteLength cs + 1 = start + (after cs).column := by
  induction cs using List.reverseRecOn with
  | nil => exact ⟨0, .first newlines_nil, rfl⟩
  | append_singleton cs c ih =>
    rw [after_concat, newlines_concat, byteLength_concat]
    split
    · rename_i newline
      subst newline
      refine ⟨byteLength cs + 1, .next ⟨Set.mem_insert _ _, fun q mem => ?_⟩, rfl⟩
      exact (Set.mem_insert_iff.1 mem).elim le_of_eq fun old => (lt_of_mem_newlines old).le
    · obtain ⟨start, starts, bytes⟩ := ih
      exact ⟨start, starts, by simp only; omega⟩

/-- Positions go by lines, and in a line by columns. -/
def rank (p : Position) : ℕ ×ₗ ℕ := toLex (p.line, p.column)

theorem rank_injective : Function.Injective rank := by
  rintro ⟨_, _⟩ ⟨_, _⟩ same
  simpa [rank] using same

theorem rank_lt_concat (cs : List Char) (c : Char) : (after cs).rank < (after (cs ++ [c])).rank := by
  have := c.utf8Size_pos
  rw [after_concat, rank, rank, Prod.Lex.toLex_lt_toLex]
  split
  · exact .inl (Nat.lt_succ_self _)
  · exact .inr ⟨rfl, by simp only; omega⟩

theorem rank_le_append (cs ds : List Char) : (after cs).rank ≤ (after (cs ++ ds)).rank := by
  induction ds using List.reverseRecOn with
  | nil => rw [List.append_nil]
  | append_singleton ds d ih =>
    rw [← List.append_assoc]
    exact ih.trans (rank_lt_concat _ d).le

theorem after_append_eq_iff {cs ds : List Char} : after (cs ++ ds) = after cs ↔ ds = [] := by
  refine ⟨fun same => ?_, fun none => by rw [none, List.append_nil]⟩
  cases ds with
  | nil => rfl
  | cons d ds =>
    have further := (rank_lt_concat cs d).trans_le (rank_le_append (cs ++ [d]) ds)
    rw [List.append_assoc, List.singleton_append, same] at further
    exact absurd further (lt_irrefl _)

end Position

theorem wholeChars_greatest {before : List Char} {bytes : ℕ} (room : byteLength before ≤ bytes)
    (after : List Char) : before <+: wholeChars bytes (before ++ after) := by
  induction before generalizing bytes with
  | nil => exact List.nil_prefix
  | cons c cs ih =>
    rw [byteLength_cons] at room
    rw [List.cons_append, wholeChars, if_pos (by omega), List.prefix_cons_inj]
    exact ih (by omega)

namespace Span

/-- The offset whose position is told: the start of the character that the span starts in, or the end
of the text. -/
def offset (s : Span) (source : String) : ℕ := byteLength (wholeChars s.start source.toList)

theorem offset_isGreatest (s : Span) (source : String) :
    IsGreatest {p | (String.Pos.Raw.mk p).IsValid source ∧ p ≤ min s.start source.utf8ByteSize}
      (s.offset source) := by
  obtain ⟨rest, split⟩ := wholeChars_initial s.start source.toList
  refine ⟨⟨isValid_iff.2 ⟨_, rest, split.symm, rfl⟩, Nat.le_min.2 ⟨byteLength_wholeChars_le _ _, ?_⟩⟩,
    ?_⟩
  · rw [← byteLength_toList, ← split, byteLength_append]
    exact Nat.le_add_right _ _
  · rintro p ⟨valid, room⟩
    obtain ⟨before, after, eq, rfl⟩ := isValid_iff.1 valid
    obtain ⟨more, whole⟩ := wholeChars_greatest (room.trans (min_le_left _ _)) after
    rw [offset, eq, ← whole, byteLength_append]
    exact Nat.le_add_right _ _

theorem wholeChars_of_le {s t : Span} (le : s.start ≤ t.start) (source : String) :
    ∃ more, wholeChars t.start source.toList = wholeChars s.start source.toList ++ more := by
  obtain ⟨rest, split⟩ := wholeChars_initial s.start source.toList
  have room := (byteLength_wholeChars_le s.start source.toList).trans le
  obtain ⟨more, whole⟩ := wholeChars_greatest room rest
  exact ⟨more, by rw [whole, split]⟩

theorem position_eq_iff_of_le {s t : Span} (le : s.start ≤ t.start) (source : String) :
    t.position source = s.position source ↔ t.offset source = s.offset source := by
  obtain ⟨more, whole⟩ := wholeChars_of_le le source
  rw [position, position, offset, offset, whole, Position.after_append_eq_iff, byteLength_append,
    Nat.add_eq_left]
  exact ⟨fun none => none ▸ rfl, eq_nil_of_byteLength⟩

/-- A position is that of the last character boundary that neither the start of the span nor the end
of the text comes before. Its line counts the newlines before that offset, its column the bytes since
the last of them, both from 1. So the position tells the offset, and goes up with the start of the
span. -/
theorem position_locates (source : String) :
    (∀ s : Span,
      IsGreatest {p | (String.Pos.Raw.mk p).IsValid source ∧ p ≤ min s.start source.utf8ByteSize}
        (s.offset source) ∧
      (s.position source).line = {q | NewlineAt source q ∧ q < s.offset source}.ncard + 1 ∧
      ∃ start, StartsAfter {q | NewlineAt source q ∧ q < s.offset source} start ∧
        s.offset source + 1 = start + (s.position source).column) ∧
    (∀ s t : Span, s.position source = t.position source ↔ s.offset source = t.offset source) ∧
    ∀ s t : Span, s.start ≤ t.start → (s.position source).rank ≤ (t.position source).rank := by
  refine ⟨fun s => ⟨s.offset_isGreatest source, ?_⟩, fun s t => ?_, fun s t le => ?_⟩
  · obtain ⟨rest, split⟩ := wholeChars_initial s.start source.toList
    rw [offset, newlines_before split.symm]
    exact ⟨Position.after_line _, Position.after_column _⟩
  · rcases le_total s.start t.start with le | le
    · rw [eq_comm, position_eq_iff_of_le le, eq_comm]
    · exact position_eq_iff_of_le le source
  · obtain ⟨more, whole⟩ := wholeChars_of_le le source
    rw [position, position, whole]
    exact Position.rank_le_append _ _

/-- A span that starts inside of a character, and one that starts past the end. -/
theorem position_locates_outside :
    (⟨2, 3, 0⟩ : Span).start ≤ (⟨9, 9, 0⟩ : Span).start ∧
      (position ⟨2, 3, 0⟩ "aé\nb").rank ≤ (position ⟨9, 9, 0⟩ "aé\nb").rank ∧
      position ⟨2, 3, 0⟩ "aé\nb" = ⟨1, 2⟩ ∧ position ⟨9, 9, 0⟩ "aé\nb" = ⟨2, 2⟩ := by
  have le : (⟨2, 3, 0⟩ : Span).start ≤ (⟨9, 9, 0⟩ : Span).start := by decide
  exact ⟨le, (position_locates "aé\nb").2.2 _ _ le, by decide, by decide⟩

end Span

end QueryFunctions
