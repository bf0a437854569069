import QueryFunctions.Proofs.Law.Basic
import QueryFunctions.Proofs.Run.Brackets

/-! Agreement. Two computations do the same wherever a law holds, whatever comes of them, and keep it. A
computation that does something else where the law is broken agrees with the one that takes no notice, so
the law is not broken at any step that either of them takes, not even on the way to a fault. -/
namespace QueryFunctions

namespace Law

variable {ρ σ α β : Type} {law : Law σ} {r : ρ} {s : σ}

/-- Started in `s`, the second computation does what the first does, and that keeps the law. -/
structure Agrees (law : Law σ) (r : ρ) (s : σ) (act act' : Computation ρ σ α) (q : α → σ → Prop) :
    Prop where
  kept : law.Keeps r s act q
  same : act' r s = act r s

namespace Agrees

theorem refl {act : Computation ρ σ α} {q : α → σ → Prop} (kept : law.Keeps r s act q) :
    law.Agrees r s act act q := ⟨kept, rfl⟩

theorem pure {a : α} {q : α → σ → Prop} (hs : law.holds s) (ha : q a s) :
    law.Agrees r s (pure a) (pure a) q := refl (.pure hs ha)

theorem throw {e : QueryError} {q : α → σ → Prop} (hs : law.holds s) :
    law.Agrees r s (throw e : Computation ρ σ α) (throw e) q := refl (.throw hs)

theorem bind {act act' : Computation ρ σ α} {next next' : α → Computation ρ σ β}
    {m : α → σ → Prop} {q : β → σ → Prop} (first : law.Agrees r s act act' m)
    (second : ∀ a t, law.holds t → m a t → law.Agrees r t (next a) (next' a) q) :
    law.Agrees r s (act >>= next) (act' >>= next') q := by
  refine ⟨first.kept.bind fun a t ht _ ha => (second a t ht ha).kept, ?_⟩
  rw [Computation.run_bind, Computation.run_bind, first.same]
  rcases h : act r s with ⟨f | e | a, t⟩
  · rfl
  · rfl
  · obtain ⟨ht, -, ha⟩ := first.kept _ _ h
    exact (second a t ht (ha a rfl)).same

theorem ofExcept {result : Except QueryError α} (hs : law.holds s) :
    law.Agrees r s (ofExcept result : Computation ρ σ α) (ofExcept result) fun a _ => result = .ok a :=
  refl ((Keeps.ofExcept hs).mono fun _ _ _ _ => And.left)

theorem mapM {f f' : α → Computation ρ σ β} {p : α → Prop} {q : β → Prop}
    (each : ∀ a s, law.holds s → p a → law.Agrees r s (f a) (f' a) fun b _ => q b)
    (as : List α) (hs : law.holds s) (all : ∀ a ∈ as, p a) :
    law.Agrees r s (as.mapM f) (as.mapM f') fun bs _ => ∀ b ∈ bs, q b := by
  induction as generalizing s with
  | nil =>
    rw [List.mapM_nil, List.mapM_nil]
    exact pure hs nofun
  | cons a as ih =>
    rw [List.mapM_cons, List.mapM_cons]
    refine (each a s hs (all a (by simp))).bind fun b t ht hb => ?_
    refine (ih ht fun x hx => all x (by simp [hx])).bind fun bs u hu hbs => ?_
    exact pure hu (List.forall_mem_cons.2 ⟨hb, hbs⟩)

theorem foldlM {f f' : β → α → Computation ρ σ β} {p : α → Prop} {q : β → Prop}
    (each : ∀ b a s, law.holds s → q b → p a → law.Agrees r s (f b a) (f' b a) fun b _ => q b)
    (as : List α) {b : β} (hs : law.holds s) (hb : q b) (all : ∀ a ∈ as, p a) :
    law.Agrees r s (as.foldlM f b) (as.foldlM f' b) fun b _ => q b := by
  induction as generalizing b s with
  | nil => exact pure hs hb
  | cons a as ih =>
    rw [List.foldlM_cons, List.foldlM_cons]
    exact (each b a s hs hb (all a (by simp))).bind fun b t ht hb =>
      ih ht hb fun x hx => all x (by simp [hx])

theorem filterM {f f' : α → Computation ρ σ Bool} {p : α → Prop}
    (each : ∀ a s, law.holds s → p a → law.Agrees r s (f a) (f' a) fun _ _ => True)
    (as : List α) (hs : law.holds s) (all : ∀ a ∈ as, p a) :
    law.Agrees r s (as.filterM f) (as.filterM f') fun bs _ => ∀ b ∈ bs, p b := by
  have gathering : ∀ (as acc : List α) (s : σ), law.holds s → (∀ a ∈ as, p a) →
      law.Agrees r s (List.filterAuxM f as acc) (List.filterAuxM f' as acc) fun _ _ => True := by
    intro as
    induction as with
    | nil => exact fun acc s hs _ => pure hs trivial
    | cons a as ih =>
      exact fun acc s hs all => (each a s hs (all a (by simp))).bind fun kept t ht _ =>
        ih _ t ht fun x hx => all x (by simp [hx])
  have gathered := (gathering as [] s hs all).bind (q := fun _ _ => True) fun bs t ht _ =>
    pure (a := bs.reverse) ht trivial
  refine ⟨.filterM (fun a s hs ha => (each a s hs ha).kept) as hs all, gathered.same⟩

end Agrees

end Law

namespace Run

variable {α : Type} {law : Law RunState} {r : RunSetting} {s t : RunState}

/-- What two computations agree on in the changed state they agree on, if the law holds up to the change
and back. -/
theorem leaving_agrees {leave : RunState → RunState} {act act' inner inner' : Run α} {q : α → Prop}
    (run : act r s = leaving leave (inner r t)) (run' : act' r s = leaving leave (inner' r t))
    (agrees : law.Agrees r t inner inner' fun a _ => q a)
    (back : ∀ u, law.holds u → law.leads t u → law.holds (leave u) ∧ law.leads s (leave u)) :
    law.Agrees r s act act' fun a _ => q a :=
  ⟨leaving_keeps run agrees.kept back, by rw [run, run', agrees.same]⟩

theorem nested_agrees {act act' : Run α} {q : α → Prop} (hs : law.holds s)
    (agrees : law.Agrees r s.deeper act act' fun a _ => q a)
    (back : ∀ u, law.holds u → law.leads s.deeper u →
      law.holds u.shallower ∧ law.leads s u.shallower) :
    law.Agrees r s (nested act) (nested act') fun a _ => q a :=
  ⟨nested_leaving_keeps hs agrees.kept back, by rw [nested_run, nested_run, agrees.same]⟩

end Run

end QueryFunctions
