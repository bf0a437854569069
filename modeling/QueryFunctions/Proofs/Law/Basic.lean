import QueryFunctions.Compile.Basic
import QueryFunctions.Run.Context

/-! Laws that a computation keeps. A law says what holds of every state and how a later state may
differ from an earlier one. Computations read a setting, change a state, and end with a value, an
error or a fault; a law that is kept holds after a value and after an error alike, and says nothing
about a computation that meets a fault. -/
namespace QueryFunctions

/-- What compilation and evaluation have in common. -/
abbrev Computation (ρ σ α : Type) := ReaderT ρ (ExceptT QueryError (ExceptT Fault (StateM σ))) α

theorem Computation.run_bind {ρ σ α β : Type} (act : Computation ρ σ α)
    (next : α → Computation ρ σ β) (r : ρ) (s : σ) :
    (act >>= next) r s = match act r s with
      | (.ok (.ok a), t) => next a r t
      | (.ok (.error e), t) => (.ok (.error e), t)
      | (.error f, t) => (.error f, t) := by
  simp only [Bind.bind, ReaderT.bind, ExceptT.bind, ExceptT.mk, StateT.bind]
  rcases act r s with ⟨f | e | a, t⟩ <;> rfl

theorem Computation.run_pure {ρ σ α : Type} (a : α) (r : ρ) (s : σ) :
    (pure a : Computation ρ σ α) r s = (.ok (.ok a), s) := rfl

theorem Computation.run_throw {ρ σ α : Type} (e : QueryError) (r : ρ) (s : σ) :
    (throw e : Computation ρ σ α) r s = (.ok (.error e), s) := rfl

theorem Computation.throw_bind {ρ σ α β : Type} (e : QueryError) (next : α → Computation ρ σ β) :
    (throw e >>= next) = throw e := rfl

theorem Computation.run_read {ρ σ : Type} (r : ρ) (s : σ) :
    (read : Computation ρ σ ρ) r s = (.ok (.ok r), s) := rfl

theorem Computation.of_bind_ok {ρ σ α β : Type} {act : Computation ρ σ α}
    {next : α → Computation ρ σ β} {r : ρ} {s u : σ} {b : β}
    (run : (act >>= next) r s = (.ok (.ok b), u)) :
    ∃ a t, act r s = (.ok (.ok a), t) ∧ next a r t = (.ok (.ok b), u) := by
  rw [Computation.run_bind] at run
  rcases h : act r s with ⟨f | e | a, t⟩ <;> rw [h] at run
  · cases run
  · cases run
  · exact ⟨a, t, rfl, run⟩

structure Law (σ : Type) where
  holds : σ → Prop
  /-- From the first state the second may be reached. -/
  leads : σ → σ → Prop
  refl : ∀ s, leads s s
  trans : ∀ {s t u}, leads s t → leads t u → leads s u

namespace Law

variable {ρ σ α β : Type} {law : Law σ} {r : ρ} {s : σ}

/-- Started in `s`, the computation keeps the law, and its value satisfies `post`. -/
def Keeps (law : Law σ) (r : ρ) (s : σ) (act : Computation ρ σ α) (post : α → σ → Prop) : Prop :=
  ∀ result t, act r s = (.ok result, t) →
    law.holds t ∧ law.leads s t ∧ ∀ a, result = .ok a → post a t

namespace Keeps

theorem pure {a : α} {post : α → σ → Prop} (hs : law.holds s) (ha : post a s) :
    law.Keeps r s (pure a) post := by
  rintro result t ⟨⟩
  exact ⟨hs, law.refl s, by rintro _ ⟨⟩; exact ha⟩

theorem throw {e : QueryError} {post : α → σ → Prop} (hs : law.holds s) :
    law.Keeps r s (throw e : Computation ρ σ α) post := by
  rintro result t ⟨⟩
  exact ⟨hs, law.refl s, by rintro _ ⟨⟩⟩

theorem mono {act : Computation ρ σ α} {post post' : α → σ → Prop} (kept : law.Keeps r s act post)
    (weaker : ∀ a t, law.holds t → law.leads s t → post a t → post' a t) :
    law.Keeps r s act post' := by
  intro result t run
  obtain ⟨ht, hst, value⟩ := kept result t run
  exact ⟨ht, hst, fun a ha => weaker a t ht hst (value a ha)⟩

theorem bind {act : Computation ρ σ α} {next : α → Computation ρ σ β} {mid : α → σ → Prop}
    {post : β → σ → Prop} (first : law.Keeps r s act mid)
    (second : ∀ a t, law.holds t → law.leads s t → mid a t → law.Keeps r t (next a) post) :
    law.Keeps r s (act >>= next) post := by
  intro result u run
  rw [Computation.run_bind] at run
  cases h : act r s with
  | mk ended t =>
    rw [h] at run
    rcases ended with f | e | a
    · cases run
    · cases run
      obtain ⟨ht, hst, -⟩ := first _ _ h
      exact ⟨ht, hst, by rintro _ ⟨⟩⟩
    · obtain ⟨ht, hst, ha⟩ := first _ _ h
      obtain ⟨hu, htu, value⟩ := second a t ht hst (ha a rfl) _ _ run
      exact ⟨hu, law.trans hst htu, value⟩

theorem of_eq {act : Computation ρ σ α} {a : α} {t : σ} {post : α → σ → Prop}
    (run : act r s = (.ok (.ok a), t)) (ht : law.holds t) (hst : law.leads s t) (ha : post a t) :
    law.Keeps r s act post := by
  intro result u ran
  rw [run] at ran
  cases ran
  exact ⟨ht, hst, by rintro _ ⟨⟩; exact ha⟩

theorem after {act rest : Computation ρ σ α} {t : σ} {post : α → σ → Prop}
    (run : act r s = rest r t) (hst : law.leads s t) (kept : law.Keeps r t rest post) :
    law.Keeps r s act post := by
  intro result u ran
  rw [run] at ran
  obtain ⟨hu, htu, value⟩ := kept result u ran
  exact ⟨hu, law.trans hst htu, value⟩

/-- Known steps, a computation that keeps the law from there on, and an ending that keeps it only
with regard to the start. -/
theorem enclosing {act : Computation ρ σ β} {inner : Computation ρ σ α}
    {ending : α → Computation ρ σ β} {t : σ} {mid : α → σ → Prop} {post : β → σ → Prop}
    (run : act r s = (inner >>= ending) r t) (hst : law.leads s t) (kept : law.Keeps r t inner mid)
    (ended : ∀ a u, law.holds u → law.leads t u → mid a u → ∀ result w,
      ending a r u = (.ok result, w) →
        law.holds w ∧ law.leads s w ∧ ∀ b, result = .ok b → post b w) :
    law.Keeps r s act post := by
  intro result w ran
  rw [run, Computation.run_bind] at ran
  cases h : inner r t with
  | mk inner u =>
    rw [h] at ran
    rcases inner with f | e | a
    · cases ran
    · cases ran
      obtain ⟨hu, htu, -⟩ := kept _ _ h
      exact ⟨hu, law.trans hst htu, by rintro _ ⟨⟩⟩
    · obtain ⟨hu, htu, ha⟩ := kept _ _ h
      exact ended a u hu htu (ha a rfl) result w ran

theorem of_fault {act : Computation ρ σ α} {f : Fault} {t : σ} {post : α → σ → Prop}
    (run : act r s = (.error f, t)) : law.Keeps r s act post := by
  intro result u ran
  rw [run] at ran
  cases ran

theorem read (hs : law.holds s) :
    law.Keeps r s (read : Computation ρ σ ρ) fun a t => a = r ∧ t = s :=
  of_eq rfl hs (law.refl s) ⟨rfl, rfl⟩

theorem get (hs : law.holds s) :
    law.Keeps r s (get : Computation ρ σ σ) fun a t => a = s ∧ t = s :=
  of_eq rfl hs (law.refl s) ⟨rfl, rfl⟩

theorem ofExcept {result : Except QueryError α} (hs : law.holds s) :
    law.Keeps r s (ofExcept result : Computation ρ σ α) fun a t => result = .ok a ∧ t = s := by
  cases result with
  | ok a => exact of_eq rfl hs (law.refl s) ⟨rfl, rfl⟩
  | error e => exact throw hs

theorem attempt {act : Computation ρ σ α} {post : α → σ → Prop} (kept : law.Keeps r s act post) :
    law.Keeps r s (fun r s => ((act r s).1.map .ok, (act r s).2) :
      Computation ρ σ (Except QueryError α)) fun result t => ∀ a, result = .ok a → post a t := by
  intro result t run
  cases h : act r s with
  | mk ended u =>
    simp only [h] at run
    cases ended with
    | error f => cases run
    | ok ended =>
      cases run
      obtain ⟨ht, hst, value⟩ := kept _ _ h
      exact ⟨ht, hst, by rintro _ ⟨⟩; exact value⟩

theorem mapM {f : α → Computation ρ σ β} {pre : α → Prop} {post : β → Prop}
    (each : ∀ a s, law.holds s → pre a → law.Keeps r s (f a) fun b _ => post b) :
    ∀ (as : List α) (s : σ), law.holds s → (∀ a ∈ as, pre a) →
      law.Keeps r s (as.mapM f) fun bs _ => ∀ b ∈ bs, post b
  | [], s, hs, _ => by
    rw [List.mapM_nil]
    exact pure hs (by simp)
  | a :: as, s, hs, all => by
    rw [List.mapM_cons]
    refine bind (each a s hs (all a (by simp))) fun b t ht _ hb => ?_
    refine bind (mapM each as t ht fun x hx => all x (by simp [hx])) fun bs u hu _ hbs => ?_
    exact pure hu (by simpa using ⟨hb, hbs⟩)

theorem foldlM {f : β → α → Computation ρ σ β} {pre : α → σ → Prop} {post : β → σ → Prop}
    (stable : ∀ a s t, law.leads s t → pre a s → pre a t)
    (each : ∀ b a s, law.holds s → post b s → pre a s → law.Keeps r s (f b a) post) :
    ∀ (as : List α) (b : β) (s : σ), law.holds s → post b s → (∀ a ∈ as, pre a s) →
      law.Keeps r s (as.foldlM f b) post
  | [], b, s, hs, hb, _ => pure hs hb
  | a :: as, b, s, hs, hb, all => by
    rw [List.foldlM_cons]
    refine bind (each b a s hs hb (all a (by simp))) fun b' t ht hst hb' => ?_
    have rest : ∀ x ∈ as, pre x t := fun x hx => stable x s t hst (all x (by simp [hx]))
    exact foldlM stable each as b' t ht hb' rest

theorem forM_all {f : α → Computation ρ σ PUnit} {pre : α → Prop} {post : α → σ → Prop}
    (stable : ∀ a s t, law.leads s t → post a s → post a t)
    (each : ∀ a s, law.holds s → pre a → law.Keeps r s (f a) fun _ t => post a t) :
    ∀ (as : List α) (s : σ), law.holds s → (∀ a ∈ as, pre a) →
      law.Keeps r s (as.forM f) fun _ t => ∀ a ∈ as, post a t
  | [], s, hs, _ => pure hs (by simp)
  | a :: as, s, hs, all => by
    refine bind (each a s hs (all a (by simp))) fun _ t ht _ ha => ?_
    have rest := forM_all stable each as t ht fun x hx => all x (by simp [hx])
    refine rest.mono fun _ u _ htu has => ?_
    simpa using ⟨stable a t u htu ha, has⟩

theorem forM {f : α → Computation ρ σ PUnit} {pre : α → Prop}
    (each : ∀ a s, law.holds s → pre a → law.Keeps r s (f a) fun _ _ => True)
    (as : List α) (s : σ) (hs : law.holds s) (all : ∀ a ∈ as, pre a) :
    law.Keeps r s (as.forM f) fun _ _ => True := by
  have kept : law.Keeps r s (as.forM f) fun _ _ => ∀ a ∈ as, True :=
    forM_all (fun _ _ _ _ _ => trivial) each as s hs all
  exact kept.mono fun _ _ _ _ _ => trivial

theorem filterM {f : α → Computation ρ σ Bool} {pre : α → Prop}
    (each : ∀ a s, law.holds s → pre a → law.Keeps r s (f a) fun _ _ => True)
    (as : List α) (hs : law.holds s) (all : ∀ a ∈ as, pre a) :
    law.Keeps r s (as.filterM f) fun bs _ => ∀ b ∈ bs, pre b := by
  have gathering : ∀ (as acc : List α) (s : σ), law.holds s → (∀ a ∈ as, pre a) →
      (∀ a ∈ acc, pre a) →
      law.Keeps r s (List.filterAuxM f as acc) fun bs _ => ∀ b ∈ bs, pre b := by
    intro as
    induction as with
    | nil => exact fun acc s hs _ hacc => pure hs hacc
    | cons a as ih =>
      intro acc s hs all hacc
      refine bind (each a s hs (all a (by simp))) fun kept t ht _ _ => ?_
      refine ih _ t ht (fun x hx => all x (by simp [hx])) fun x hx => ?_
      cases kept with
      | true => exact (List.mem_cons.1 hx).elim (· ▸ all a (by simp)) (hacc x)
      | false => exact hacc x hx
  refine bind (gathering as [] s hs all (by simp)) fun bs t ht _ hbs => ?_
  exact pure ht fun b hb => hbs b (List.mem_reverse.1 hb)

end Keeps

end Law

end QueryFunctions
