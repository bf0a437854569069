import QueryFunctions.SeqType.Text

/-! Texts of types are unambiguous. A function type ends with its result and no bracket, so what is
shown by induction is more: whatever comes after the text of a type, the text that is there can be
read in one way only. A list of parameters is read up to the bracket that closes it. -/
namespace QueryFunctions

namespace SeqType

def chars (a : SeqType) : List Char := a.text.toList

def listChars (ps : List SeqType) : List Char := (listText ps).toList

def moreChars : List SeqType → List Char
  | [] => []
  | p :: ps => ',' :: ' ' :: (p.chars ++ moreChars ps)

def opening (u : Bool) : List Char := (if u then "updating function(" else "function(").toList

def atoms : List SeqType := [item, empty, integer, boolean, string, anyFunction]

theorem chars_function (ps : List SeqType) (r : SeqType) (u : Bool) :
    (function ps r u).chars = opening u ++ (listChars ps ++ ')' :: (" as ".toList ++ r.chars)) := by
  cases u <;> simp [chars, listChars, opening, text]

theorem listChars_nil : listChars [] = [] := by simp [listChars, listText]

theorem listChars_cons (p : SeqType) (ps : List SeqType) :
    listChars (p :: ps) = p.chars ++ moreChars ps := by
  induction ps generalizing p with
  | nil => simp [listChars, listText, chars, moreChars]
  | cons q ps ih =>
    have step : listChars (p :: q :: ps) = p.chars ++ ',' :: ' ' :: listChars (q :: ps) := by
      simp [listChars, listText, chars]
    rw [step, ih, moreChars]

theorem atoms_apart : ∀ a ∈ atoms, ∀ b ∈ atoms, a.chars <+: b.chars → a = b := by decide

theorem opening_apart : ∀ u v, opening u <+: opening v → u = v := by decide

theorem opening_apart_atoms : ∀ u, ∀ a ∈ atoms, a ≠ anyFunction →
    ¬opening u <+: a.chars ∧ ¬a.chars <+: opening u := by decide

variable {x y : List Char}

/-- A text starts with one of five letters, and so with none of the marks that stand between types. -/
theorem chars_append_ne {c : Char} (mark : c ∉ "iexfu".toList) (a : SeqType) :
    a.chars ++ x ≠ c :: y := by
  intro same
  cases a with
  | function ps r u =>
    cases u <;> simp [chars_function, opening] at same <;> simp [← same.1] at mark
  | _ =>
    simp [chars, text] at same
    simp [← same.1] at mark

theorem initial_or_initial {a b : List Char} (same : a ++ x = b ++ y) : a <+: b ∨ b <+: a := by
  rcases List.append_eq_append_iff.1 same with ⟨more, eq, -⟩ | ⟨more, eq, -⟩
  · exact .inl ⟨more, eq.symm⟩
  · exact .inr ⟨more, eq.symm⟩

theorem atom_cancel {a b : SeqType} (ha : a ∈ atoms) (hb : b ∈ atoms)
    (same : a.chars ++ x = b.chars ++ y) : a = b ∧ x = y := by
  obtain rfl : a = b := (initial_or_initial same).elim (atoms_apart a ha b hb) fun h =>
    (atoms_apart b hb a ha h).symm
  exact ⟨rfl, List.append_cancel_left same⟩

theorem opening_cancel {u v : Bool} (same : opening u ++ x = opening v ++ y) : u = v ∧ x = y := by
  obtain rfl : u = v := (initial_or_initial same).elim (opening_apart u v) fun h =>
    (opening_apart v u h).symm
  exact ⟨rfl, List.append_cancel_left same⟩

/-- A signature is not taken for an atom, nor its parameters for the star of an untyped function. -/
theorem chars_function_append_ne {ps : List SeqType} {r : SeqType} {u : Bool} {a : SeqType}
    (ha : a ∈ atoms) : (function ps r u).chars ++ x ≠ a.chars ++ y := by
  rw [chars_function, List.append_assoc]
  intro same
  by_cases untyped : a = anyFunction
  · -- An untyped function opens as a signature does: the star stands where a parameter would.
    have star : anyFunction.chars = opening false ++ ['*', ')'] := by decide
    rw [untyped, star, List.append_assoc (opening false)] at same
    have inside := (opening_cancel same).2
    cases ps with
    | nil => simp [listChars_nil] at inside
    | cons p ps =>
      rw [listChars_cons, List.append_assoc, List.append_assoc] at inside
      exact chars_append_ne (by decide) p inside
  · obtain ⟨apart, apart'⟩ := opening_apart_atoms u a ha untyped
    exact (initial_or_initial same).elim apart apart'

mutual
theorem chars_cancel : (a b : SeqType) → {x y : List Char} → a.chars ++ x = b.chars ++ y →
    a = b ∧ x = y
  | .function ps r u, .function qs s v, x, y, same => by
    simp only [chars_function, List.append_assoc, List.cons_append] at same
    obtain ⟨rfl, inside⟩ := opening_cancel same
    obtain ⟨rfl, result⟩ := listChars_cancel ps qs inside
    obtain ⟨rfl, rest⟩ := chars_cancel r s (List.append_cancel_left result)
    exact ⟨rfl, rest⟩
  | .function ps r u, .item, x, y, same | .function ps r u, .empty, x, y, same
  | .function ps r u, .integer, x, y, same | .function ps r u, .boolean, x, y, same
  | .function ps r u, .string, x, y, same | .function ps r u, .anyFunction, x, y, same =>
    absurd same (chars_function_append_ne (by decide))
  | .item, b, x, y, same | .empty, b, x, y, same | .integer, b, x, y, same
  | .boolean, b, x, y, same | .string, b, x, y, same | .anyFunction, b, x, y, same => by
    cases b with
    | function qs s v => exact absurd same.symm (chars_function_append_ne (by decide))
    | _ => exact atom_cancel (by decide) (by decide) same

theorem listChars_cancel : (ps qs : List SeqType) → {x y : List Char} →
    listChars ps ++ ')' :: x = listChars qs ++ ')' :: y → ps = qs ∧ x = y
  | [], [], x, y, same => by simpa [listChars_nil] using same
  | [], q :: qs, x, y, same => by
    rw [listChars_nil, listChars_cons, List.append_assoc] at same
    exact absurd same.symm (chars_append_ne (by decide) q)
  | p :: ps, [], x, y, same => by
    rw [listChars_nil, listChars_cons, List.append_assoc] at same
    exact absurd same (chars_append_ne (by decide) p)
  | p :: ps, q :: qs, x, y, same => by
    rw [listChars_cons, listChars_cons, List.append_assoc, List.append_assoc] at same
    obtain ⟨rfl, more⟩ := chars_cancel p q same
    obtain ⟨rfl, rest⟩ := moreChars_cancel ps qs more
    exact ⟨rfl, rest⟩

theorem moreChars_cancel : (ps qs : List SeqType) → {x y : List Char} →
    moreChars ps ++ ')' :: x = moreChars qs ++ ')' :: y → ps = qs ∧ x = y
  | [], [], x, y, same => by simpa [moreChars] using same
  | [], _ :: _, x, y, same | _ :: _, [], x, y, same => by simp [moreChars] at same
  | p :: ps, q :: qs, x, y, same => by
    simp only [moreChars, List.cons_append, List.append_assoc, List.cons.injEq, true_and] at same
    obtain ⟨rfl, more⟩ := chars_cancel p q same
    obtain ⟨rfl, rest⟩ := moreChars_cancel ps qs more
    exact ⟨rfl, rest⟩
end

/-- A type can be told from its text, whatever types it is made of, and so can a signature, updating
flags included. -/
theorem text_unambiguous :
    (∀ a b : SeqType, a.text = b.text ↔ a = b) ∧ ∀ f g : FuncType, f.text = g.text ↔ f = g := by
  have types : ∀ {a b : SeqType}, a.text = b.text → a = b := fun {a b} same =>
    (chars_cancel a b (x := []) (y := []) (by rw [chars, chars, same])).1
  refine ⟨fun a b => ⟨types, congrArg text⟩, fun f g => ⟨fun same => ?_, congrArg FuncType.text⟩⟩
  have signatures := congrArg funcType? (types same)
  rwa [funcType?_toSeqType, funcType?_toSeqType, Option.some.injEq] at signatures

end SeqType

end QueryFunctions
