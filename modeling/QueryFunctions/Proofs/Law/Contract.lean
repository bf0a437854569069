import QueryFunctions.Proofs.Law.Basic

/-! Contracts. A contract is a law that also says which errors a computation may raise and which faults
it may meet. Unlike a law it speaks of every run: what a state leads to is told up to a fault, too. -/
namespace QueryFunctions

structure Contract (σ : Type) extends Law σ where
  raises : QueryError → Prop
  faults : Fault → Prop

namespace Contract

variable {ρ σ α β : Type} {c : Contract σ} {r : ρ} {s : σ}

/-- What the contract asks of an outcome, where the computation started in `s`. -/
def Admits (c : Contract σ) (s : σ) (post : α → σ → Prop) :
    Except Fault (Except QueryError α) × σ → Prop
  | (.ok (.ok a), t) => c.holds t ∧ c.leads s t ∧ post a t
  | (.ok (.error e), t) => c.holds t ∧ c.leads s t ∧ c.raises e
  | (.error f, t) => c.leads s t ∧ c.faults f

/-- Started in `s`, the computation keeps the contract, and its value satisfies `post`. -/
def Keeps (c : Contract σ) (r : ρ) (s : σ) (act : Computation ρ σ α) (post : α → σ → Prop) : Prop :=
  c.Admits s post (act r s)

theorem Admits.mono {t : σ} {post post' : α → σ → Prop}
    {p : Except Fault (Except QueryError α) × σ} (lead : c.leads s t) (h : c.Admits t post p)
    (weaker : ∀ a u, c.holds u → c.leads t u → post a u → post' a u) : c.Admits s post' p := by
  obtain ⟨f | e | a, u⟩ := p
  · exact ⟨c.trans lead h.1, h.2⟩
  · exact ⟨h.1, c.trans lead h.2.1, h.2.2⟩
  · exact ⟨h.1, c.trans lead h.2.1, weaker a u h.1 h.2.1 h.2.2⟩

namespace Keeps

theorem pure {a : α} {post : α → σ → Prop} (hs : c.holds s) (ha : post a s) :
    c.Keeps r s (pure a) post := ⟨hs, c.refl s, ha⟩

theorem throw {e : QueryError} {post : α → σ → Prop} (hs : c.holds s) (raised : c.raises e) :
    c.Keeps r s (throw e : Computation ρ σ α) post := ⟨hs, c.refl s, raised⟩

theorem mono {act : Computation ρ σ α} {post post' : α → σ → Prop} (kept : c.Keeps r s act post)
    (weaker : ∀ a t, c.holds t → c.leads s t → post a t → post' a t) : c.Keeps r s act post' :=
  Admits.mono (c.refl s) kept weaker

theorem bind {act : Computation ρ σ α} {next : α → Computation ρ σ β} {mid : α → σ → Prop}
    {post : β → σ → Prop} (first : c.Keeps r s act mid)
    (second : ∀ a t, c.holds t → c.leads s t → mid a t → c.Keeps r t (next a) post) :
    c.Keeps r s (act >>= next) post := by
  unfold Keeps at first ⊢
  rw [Computation.run_bind]
  generalize act r s = outcome at first ⊢
  obtain ⟨f | e | a, t⟩ := outcome
  · exact first
  · exact first
  · exact Admits.mono first.2.1 (second a t first.1 first.2.1 first.2.2) fun _ _ _ _ h => h

theorem skip {act : Computation ρ σ α} {next : α → Computation ρ σ β} {post : β → σ → Prop}
    (first : c.Keeps r s act fun _ _ => True)
    (second : ∀ a t, c.holds t → c.leads s t → c.Keeps r t (next a) post) :
    c.Keeps r s (act >>= next) post :=
  bind first fun a t ht hst _ => second a t ht hst

theorem refuse {e : QueryError} {next : PUnit → Computation ρ σ α} {post : α → σ → Prop}
    (hs : c.holds s) (raised : c.raises e) :
    c.Keeps r s ((MonadExcept.throw e : Computation ρ σ PUnit) >>= next) post := by
  have thrown : c.Keeps r s (MonadExcept.throw e : Computation ρ σ PUnit) fun _ _ => False :=
    throw hs raised
  exact bind thrown fun _ _ _ _ none => none.elim

theorem of_eq {act : Computation ρ σ α} {a : α} {t : σ} {post : α → σ → Prop}
    (run : act r s = (.ok (.ok a), t)) (ht : c.holds t) (hst : c.leads s t) (ha : post a t) :
    c.Keeps r s act post := by
  unfold Keeps
  rw [run]
  exact ⟨ht, hst, ha⟩

theorem after {act rest : Computation ρ σ α} {t : σ} {post : α → σ → Prop}
    (run : act r s = rest r t) (hst : c.leads s t) (kept : c.Keeps r t rest post) :
    c.Keeps r s act post := by
  unfold Keeps
  rw [run]
  exact Admits.mono hst kept fun _ _ _ _ h => h

/-- Part of the computation, which raises nothing, may keep another contract that leads on alike. -/
theorem enclosing {d : Contract σ} {act : Computation ρ σ β} {inner : Computation ρ σ α}
    {rest : α → Computation ρ σ β} {t : σ} {mid : α → σ → Prop} {post : β → σ → Prop}
    (run : act r s = (inner >>= rest) r t) (hst : c.leads s t) (kept : d.Keeps r t inner mid)
    (quiet : ∀ e u, inner r t ≠ (.ok (.error e), u)) (leads : ∀ {u}, d.leads t u → c.leads t u)
    (faults : ∀ f, d.faults f → c.faults f)
    (ending : ∀ a u, d.holds u → d.leads t u → mid a u → c.Keeps r u (rest a) post) :
    c.Keeps r s act post := by
  refine after run hst ?_
  unfold Keeps at kept ⊢
  rw [Computation.run_bind]
  generalize inner r t = outcome at kept quiet ⊢
  obtain ⟨f | e | a, u⟩ := outcome
  · exact ⟨leads kept.1, faults f kept.2⟩
  · exact absurd rfl (quiet e u)
  · exact Admits.mono (leads kept.2.1) (ending a u kept.1 kept.2.1 kept.2.2) fun _ _ _ _ h => h

theorem of_fault {act : Computation ρ σ α} {f : Fault} {post : α → σ → Prop}
    (run : act r s = (.error f, s)) (met : c.faults f) : c.Keeps r s act post := by
  unfold Keeps
  rw [run]
  exact ⟨c.refl s, met⟩

theorem read (hs : c.holds s) :
    c.Keeps r s (read : Computation ρ σ ρ) fun a t => a = r ∧ t = s :=
  of_eq rfl hs (c.refl s) ⟨rfl, rfl⟩

theorem get (hs : c.holds s) :
    c.Keeps r s (get : Computation ρ σ σ) fun a t => a = s ∧ t = s :=
  of_eq rfl hs (c.refl s) ⟨rfl, rfl⟩

theorem ofExcept {result : Except QueryError α} (hs : c.holds s)
    (raised : ∀ e, result = .error e → c.raises e) :
    c.Keeps r s (ofExcept result : Computation ρ σ α) fun a t => result = .ok a ∧ t = s := by
  cases result with
  | ok a => exact of_eq rfl hs (c.refl s) ⟨rfl, rfl⟩
  | error e => exact throw hs (raised e rfl)

theorem attempt {act : Computation ρ σ α} {post : α → σ → Prop} (kept : c.Keeps r s act post) :
    c.Keeps r s (fun r s => ((act r s).1.map .ok, (act r s).2) :
      Computation ρ σ (Except QueryError α)) fun result t =>
        (∀ a, result = .ok a → post a t) ∧ ∀ e, result = .error e → c.raises e := by
  unfold Keeps at kept ⊢
  dsimp only
  generalize act r s = outcome at kept ⊢
  obtain ⟨f | e | a, t⟩ := outcome
  · exact kept
  · exact ⟨kept.1, kept.2.1, by rintro _ ⟨⟩, by rintro _ ⟨⟩; exact kept.2.2⟩
  · exact ⟨kept.1, kept.2.1, by rintro _ ⟨⟩; exact kept.2.2, by rintro _ ⟨⟩⟩

theorem mapM {f : α → Computation ρ σ β} {pre : α → Prop} {post : β → Prop}
    (each : ∀ a s, c.holds s → pre a → c.Keeps r s (f a) fun b _ => post b) :
    ∀ (as : List α) (s : σ), c.holds s → (∀ a ∈ as, pre a) →
      c.Keeps r s (as.mapM f) fun bs _ => ∀ b ∈ bs, post b
  | [], s, hs, _ => by
    rw [List.mapM_nil]
    exact pure hs (by simp)
  | a :: as, s, hs, all => by
    rw [List.mapM_cons]
    refine bind (each a s hs (all a (by simp))) fun b t ht _ hb => ?_
    refine bind (mapM each as t ht fun x hx => all x (by simp [hx])) fun bs u hu _ hbs => ?_
    exact pure hu (by simpa using ⟨hb, hbs⟩)

theorem forM_all {f : α → Computation ρ σ PUnit} {pre : α → Prop} {post : α → σ → Prop}
    (stable : ∀ a s t, c.leads s t → post a s → post a t)
    (each : ∀ a s, c.holds s → pre a → c.Keeps r s (f a) fun _ t => post a t) :
    ∀ (as : List α) (s : σ), c.holds s → (∀ a ∈ as, pre a) →
      c.Keeps r s (as.forM f) fun _ t => ∀ a ∈ as, post a t
  | [], s, hs, _ => pure hs (by simp)
  | a :: as, s, hs, all => by
    refine bind (each a s hs (all a (by simp))) fun _ t ht _ ha => ?_
    have rest := forM_all stable each as t ht fun x hx => all x (by simp [hx])
    refine rest.mono fun _ u _ htu has => ?_
    simpa using ⟨stable a t u htu ha, has⟩

theorem forM {f : α → Computation ρ σ PUnit} {pre : α → Prop}
    (each : ∀ a s, c.holds s → pre a → c.Keeps r s (f a) fun _ _ => True)
    (as : List α) (s : σ) (hs : c.holds s) (all : ∀ a ∈ as, pre a) :
    c.Keeps r s (as.forM f) fun _ _ => True := by
  have kept : c.Keeps r s (as.forM f) fun _ _ => ∀ a ∈ as, True :=
    forM_all (fun _ _ _ _ _ => trivial) each as s hs all
  exact kept.mono fun _ _ _ _ _ => trivial

theorem foldlM {f : β → α → Computation ρ σ β} {pre : α → Prop} {post : β → Prop}
    (each : ∀ b a s, c.holds s → post b → pre a → c.Keeps r s (f b a) fun b _ => post b) :
    ∀ (as : List α) (b : β) (s : σ), c.holds s → post b → (∀ a ∈ as, pre a) →
      c.Keeps r s (as.foldlM f b) fun b _ => post b
  | [], b, s, hs, hb, _ => pure hs hb
  | a :: as, b, s, hs, hb, all => by
    rw [List.foldlM_cons]
    refine bind (each b a s hs hb (all a (by simp))) fun b' t ht _ hb' => ?_
    exact foldlM each as b' t ht hb' fun x hx => all x (by simp [hx])

theorem filterM {f : α → Computation ρ σ Bool} {pre : α → Prop}
    (each : ∀ a s, c.holds s → pre a → c.Keeps r s (f a) fun _ _ => True)
    (as : List α) (hs : c.holds s) (all : ∀ a ∈ as, pre a) :
    c.Keeps r s (as.filterM f) fun bs _ => ∀ b ∈ bs, pre b := by
  have gathering : ∀ (as acc : List α) (s : σ), c.holds s → (∀ a ∈ as, pre a) →
      (∀ a ∈ acc, pre a) →
      c.Keeps r s (List.filterAuxM f as acc) fun bs _ => ∀ b ∈ bs, pre b := by
    intro as
    induction as with
    | nil => exact fun acc s hs _ hacc => pure hs hacc
    | cons a as ih =>
      intro acc s hs all hacc
      refine bind (each a s hs (all a (by simp))) fun kept t ht _ _ => ?_
      refine ih _ t ht (fun x hx => all x (by simp [hx])) fun x hx => ?_
      cases kept with
      | true => exact (List.mem_cons.1 hx).elim (· ▸ all a (by simp)) (hacc x)
      | false => exact hacc x hx
  refine bind (gathering as [] s hs all (by simp)) fun bs t ht _ hbs => ?_
  exact pure ht fun b hb => hbs b (List.mem_reverse.1 hb)

end Keeps

end Contract

end QueryFunctions
