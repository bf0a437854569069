import QueryFunctions.Proofs.Law.Basic
import Mathlib.Data.List.Forall2

/-! One computation that follows another. Started alike, it ends alike: with the same error, or with
related values, and in states that are alike. It has to follow only so far as the first comes to an
end, and not into errors that are excused. -/
namespace QueryFunctions

/-- When two settings and two states are alike, and which errors need not be followed. -/
structure Likeness (ρ σ : Type) where
  settings : ρ → ρ → Prop
  states : σ → σ → Prop
  excused : QueryError → Prop

/-- The same error, or related values. -/
inductive Ends {α β : Type} (rel : α → β → Prop) : Except QueryError α → Except QueryError β → Prop
  | ok {a : α} {b : β} : rel a b → Ends rel (.ok a) (.ok b)
  | error (e : QueryError) : Ends rel (.error e) (.error e)

namespace Ends

variable {α β γ δ : Type} {rel : α → β → Prop} {rel' : γ → δ → Prop}

theorem refl {rel : α → α → Prop} (all : ∀ a, rel a a) (result : Except QueryError α) :
    Ends rel result result := by
  cases result with
  | ok a => exact .ok (all a)
  | error e => exact .error e

theorem symm {rev : β → α → Prop} (each : ∀ a b, rel a b → rev b a) {result : Except QueryError α}
    {result' : Except QueryError β} (h : Ends rel result result') : Ends rev result' result := by
  cases h with
  | ok h => exact .ok (each _ _ h)
  | error e => exact .error e

theorem map {f : α → γ} {g : β → δ} (each : ∀ a b, rel a b → rel' (f a) (g b))
    {result : Except QueryError α} {result' : Except QueryError β} (h : Ends rel result result') :
    Ends rel' (result.map f) (result'.map g) := by
  cases h with
  | ok h => exact .ok (each _ _ h)
  | error e => exact .error e

end Ends

namespace Likeness

variable {ρ σ α β γ δ : Type} {like : Likeness ρ σ}

/-- The second computation, in whatever setting and state it is started that are like those of the
first, follows the first. -/
def Follows (like : Likeness ρ σ) (rel : α → β → Prop) (act : Computation ρ σ α)
    (act' : Computation ρ σ β) : Prop :=
  ∀ r r' s s', like.settings r r' → like.states s s' →
    ∀ result t, act r s = (.ok result, t) → (∀ e, result = .error e → ¬like.excused e) →
      ∃ result' t', act' r' s' = (.ok result', t') ∧ Ends rel result result' ∧ like.states t t'

namespace Follows

variable {rel : α → β → Prop} {rel' : γ → δ → Prop}

theorem pure {a : α} {b : β} (h : rel a b) : like.Follows rel (pure a) (pure b) := by
  rintro r r' s s' - hs _ _ ⟨⟩ -
  exact ⟨_, _, rfl, .ok h, hs⟩

theorem throw (e : QueryError) :
    like.Follows rel (throw e : Computation ρ σ α) (throw e : Computation ρ σ β) := by
  rintro r r' s s' - hs _ _ ⟨⟩ -
  exact ⟨_, _, rfl, .error e, hs⟩

theorem excuse {e : QueryError} (h : like.excused e) {act' : Computation ρ σ β} :
    like.Follows rel (MonadExcept.throw e : Computation ρ σ α) act' := by
  rintro r r' s s' - - _ _ ⟨⟩ free
  exact absurd h (free e rfl)

theorem of_fault {act : Computation ρ σ α} {act' : Computation ρ σ β}
    (fails : ∀ r s, ∃ f t, act r s = (.error f, t)) : like.Follows rel act act' := by
  intro r r' s s' _ _ result t run
  obtain ⟨f, u, eq⟩ := fails r s
  rw [eq] at run
  cases run

theorem bind {act : Computation ρ σ α} {act' : Computation ρ σ β} {next : α → Computation ρ σ γ}
    {next' : β → Computation ρ σ δ} (first : like.Follows rel act act')
    (second : ∀ a b, rel a b → like.Follows rel' (next a) (next' b)) :
    like.Follows rel' (act >>= next) (act' >>= next') := by
  intro r r' s s' hr hs result u run free
  rw [Computation.run_bind] at run
  rw [Computation.run_bind]
  rcases h : act r s with ⟨f | e | a, t⟩
  · rw [h] at run
    cases run
  · rw [h] at run
    cases run
    obtain ⟨_, t', run', ⟨⟩, ht⟩ := first r r' s s' hr hs _ _ h (by rintro _ ⟨⟩; exact free e rfl)
    rw [run']
    exact ⟨_, _, rfl, .error e, ht⟩
  · rw [h] at run
    obtain ⟨_, t', run', ends, ht⟩ := first r r' s s' hr hs _ _ h (by rintro _ ⟨⟩)
    cases ends with
    | ok hab =>
      rw [run']
      exact second _ _ hab r r' t t' hr ht result u run free

theorem read : like.Follows like.settings (read : Computation ρ σ ρ) read := by
  rintro r r' s s' hr hs _ _ ⟨⟩ -
  exact ⟨_, _, rfl, .ok hr, hs⟩

theorem get : like.Follows like.states (get : Computation ρ σ σ) get := by
  rintro r r' s s' - hs _ _ ⟨⟩ -
  exact ⟨_, _, rfl, .ok hs, hs⟩

theorem modify {f f' : σ → σ} (each : ∀ s s', like.states s s' → like.states (f s) (f' s')) :
    like.Follows (fun _ _ => True) (modify f : Computation ρ σ PUnit) (modify f') := by
  rintro r r' s s' - hs _ _ ⟨⟩ -
  exact ⟨_, _, rfl, .ok trivial, each s s' hs⟩

theorem modifyGet {f : σ → α × σ} {f' : σ → β × σ}
    (each : ∀ s s', like.states s s' → rel (f s).1 (f' s').1 ∧ like.states (f s).2 (f' s').2) :
    like.Follows rel (modifyGet f : Computation ρ σ α) (modifyGet f') := by
  rintro r r' s s' - hs _ _ ⟨⟩ -
  exact ⟨_, _, rfl, .ok (each s s' hs).1, (each s s' hs).2⟩

theorem ofExcept {result : Except QueryError α} {result' : Except QueryError β}
    (h : Ends rel result result') :
    like.Follows rel (ofExcept result : Computation ρ σ α) (ofExcept result') := by
  cases h with
  | ok h => exact pure h
  | error e => exact throw e

theorem ite {p q : Prop} [Decidable p] [Decidable q] {yes no : Computation ρ σ α}
    {yes' no' : Computation ρ σ β} (same : p ↔ q) (hyes : like.Follows rel yes yes')
    (hno : like.Follows rel no no') :
    like.Follows rel (if p then yes else no) (if q then yes' else no') := by
  by_cases hp : p
  · rw [if_pos hp, if_pos (same.1 hp)]
    exact hyes
  · rw [if_neg hp, if_neg fun hq => hp (same.2 hq)]
    exact hno

theorem attempt (none : ∀ e, ¬like.excused e) {act : Computation ρ σ α} {act' : Computation ρ σ β}
    (h : like.Follows rel act act') :
    like.Follows (Ends rel)
      (fun r s => ((act r s).1.map .ok, (act r s).2) : Computation ρ σ (Except QueryError α))
      (fun r s => ((act' r s).1.map .ok, (act' r s).2)) := by
  intro r r' s s' hr hs result t run free
  rcases ran : act r s with ⟨f | ended, u⟩
  · simp only [ran] at run
    cases run
  · simp only [ran] at run
    cases run
    obtain ⟨ended', u', run', ends, hu⟩ := h r r' s s' hr hs _ _ ran fun e _ => none e
    simp only [run']
    exact ⟨_, _, rfl, .ok ends, hu⟩

theorem mapM {f : α → Computation ρ σ γ} {g : β → Computation ρ σ δ}
    (each : ∀ a b, rel a b → like.Follows rel' (f a) (g b)) {as : List α} {bs : List β}
    (all : List.Forall₂ rel as bs) :
    like.Follows (List.Forall₂ rel') (as.mapM f) (bs.mapM g) := by
  induction all with
  | nil =>
    rw [List.mapM_nil, List.mapM_nil]
    exact pure .nil
  | cons hab _ ih =>
    rw [List.mapM_cons, List.mapM_cons]
    exact (each _ _ hab).bind fun c d hcd => ih.bind fun cs ds hcds => pure (.cons hcd hcds)

theorem forM {f : α → Computation ρ σ PUnit} {g : β → Computation ρ σ PUnit}
    (each : ∀ a b, rel a b → like.Follows (fun _ _ => True) (f a) (g b)) {as : List α} {bs : List β}
    (all : List.Forall₂ rel as bs) : like.Follows (fun _ _ => True) (as.forM f) (bs.forM g) := by
  induction all with
  | nil => exact pure trivial
  | cons hab _ ih => exact (each _ _ hab).bind fun _ _ _ => ih

theorem foldlM {f : γ → α → Computation ρ σ γ} {g : δ → β → Computation ρ σ δ}
    (each : ∀ c d a b, rel' c d → rel a b → like.Follows rel' (f c a) (g d b)) {as : List α}
    {bs : List β} (all : List.Forall₂ rel as bs) {c : γ} {d : δ} (hcd : rel' c d) :
    like.Follows rel' (as.foldlM f c) (bs.foldlM g d) := by
  induction all generalizing c d with
  | nil => exact pure hcd
  | cons hab _ ih =>
    rw [List.foldlM_cons, List.foldlM_cons]
    exact (each _ _ _ _ hcd hab).bind fun _ _ h => ih h

theorem filterM {f : α → Computation ρ σ Bool} {g : β → Computation ρ σ Bool}
    (each : ∀ a b, rel a b → like.Follows (· = ·) (f a) (g b)) {as : List α} {bs : List β}
    (all : List.Forall₂ rel as bs) :
    like.Follows (List.Forall₂ rel) (as.filterM f) (bs.filterM g) := by
  have gathering : ∀ {as bs}, List.Forall₂ rel as bs → ∀ {acc acc'}, List.Forall₂ rel acc acc' →
      like.Follows (List.Forall₂ rel) (List.filterAuxM f as acc) (List.filterAuxM g bs acc') := by
    intro as bs all
    induction all with
    | nil => exact fun hacc => pure hacc
    | cons hab _ ih =>
      intro acc acc' hacc
      refine (each _ _ hab).bind fun kept _ same => ?_
      cases same
      cases kept with
      | true => exact ih (.cons hab hacc)
      | false => exact ih hacc
  refine (gathering all .nil).bind fun as bs h => pure ?_
  exact List.rel_reverse h

end Follows

end Likeness

/-- The second computation draws what the first draws, and gives a related result. -/
def DrawsAlike {α β : Type} (rel : α → β → Prop) (act : Supplied α) (act' : Supplied β) : Prop :=
  ∀ s a t, act s = .ok (a, t) → ∃ b, act' s = .ok (b, t) ∧ rel a b

namespace DrawsAlike

variable {α β γ δ : Type} {rel : α → β → Prop} {rel' : γ → δ → Prop}

theorem pure {a : α} {b : β} (h : rel a b) : DrawsAlike rel (pure a) (pure b) := by
  rintro s _ _ ⟨⟩
  exact ⟨b, rfl, h⟩

theorem refl {rel : α → α → Prop} (all : ∀ a, rel a a) (act : Supplied α) :
    DrawsAlike rel act act :=
  fun _ a _ run => ⟨a, run, all a⟩

theorem bind {act : Supplied α} {act' : Supplied β} {next : α → Supplied γ} {next' : β → Supplied δ}
    (first : DrawsAlike rel act act')
    (second : ∀ a b, rel a b → DrawsAlike rel' (next a) (next' b)) :
    DrawsAlike rel' (act >>= next) (act' >>= next') := by
  intro s c u run
  cases h : act s with
  | error f =>
    simp only [Bind.bind, StateT.bind, Except.bind, h] at run
    cases run
  | ok p =>
    simp only [Bind.bind, StateT.bind, Except.bind, h] at run
    obtain ⟨b, run', hab⟩ := first s p.1 p.2 h
    obtain ⟨d, run'', hcd⟩ := second p.1 b hab p.2 c u run
    refine ⟨d, ?_, hcd⟩
    simp only [Bind.bind, StateT.bind, Except.bind, run', run'']

theorem common {act : Supplied α} {next : α → Supplied γ} {next' : α → Supplied δ}
    (each : ∀ a, DrawsAlike rel' (next a) (next' a)) :
    DrawsAlike rel' (act >>= next) (act >>= next') :=
  (refl (fun _ => rfl) act).bind fun a _ same => same ▸ each a

end DrawsAlike

end QueryFunctions
