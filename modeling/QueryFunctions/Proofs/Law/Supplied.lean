import QueryFunctions.Supply

/-! What is known of computations that only draw identities. They give none back. Either that is what
holds of a result if there is one, or besides which faults may come in its place. -/
namespace QueryFunctions

variable {α β : Type}

/-- Whenever the computation gives a result, `post` holds of it. -/
def Yields (act : Supplied α) (post : α → Prop) : Prop :=
  ∀ s a t, act s = .ok (a, t) → s.nextVar ≤ t.nextVar ∧ post a

namespace Yields

theorem pure {a : α} {post : α → Prop} (ha : post a) : Yields (pure a) post := by
  rintro s _ _ ⟨⟩
  exact ⟨Nat.le_refl _, ha⟩

theorem bind {act : Supplied α} {next : α → Supplied β} {mid : α → Prop} {post : β → Prop}
    (first : Yields act mid) (second : ∀ a, mid a → Yields (next a) post) :
    Yields (act >>= next) post := by
  intro s b u run
  cases h : act s with
  | error f =>
    simp only [Bind.bind, StateT.bind, Except.bind, h] at run
    cases run
  | ok p =>
    simp only [Bind.bind, StateT.bind, Except.bind, h] at run
    obtain ⟨grows, mid⟩ := first s p.1 p.2 h
    obtain ⟨grows', post⟩ := second p.1 mid p.2 b u run
    exact ⟨Nat.le_trans grows grows', post⟩

theorem ofExcept {result : Except Fault α} {post : α → Prop} (h : ∀ a, result = .ok a → post a) :
    Yields (liftM result) post := by
  intro s a t run
  cases result with
  | error f => cases run
  | ok x =>
    cases run
    exact ⟨Nat.le_refl _, h _ rfl⟩

theorem liftSupply {draw : StateM Supply α} {post : α → Prop}
    (h : ∀ s, s.nextVar ≤ (draw.run s).2.nextVar ∧ post (draw.run s).1) :
    Yields (liftSupply draw) post := by
  intro s a t run
  have same : draw.run s = (a, t) := Except.ok.inj run
  have ha := h s
  rwa [same] at ha

theorem freshOrigin : Yields (QueryFunctions.liftSupply Supply.freshOrigin) fun _ => True :=
  liftSupply fun _ => ⟨Nat.le_refl _, trivial⟩

theorem freshItem : Yields (QueryFunctions.liftSupply Supply.freshItem) fun _ => True :=
  liftSupply fun _ => ⟨Nat.le_refl _, trivial⟩

theorem mapM {f : α → Supplied β} (each : ∀ a, Yields (f a) fun _ => True) (as : List α) :
    Yields (as.mapM f) fun _ => True := by
  induction as with
  | nil =>
    rw [List.mapM_nil]
    exact pure trivial
  | cons a as ih =>
    rw [List.mapM_cons]
    exact bind (each a) fun b _ => bind ih fun bs _ => pure trivial

end Yields

section

variable {faults : Fault → Prop} {s : Supply}

/-- Started with `s`, the computation gives a result that satisfies `post` or meets one of the faults. -/
def Gives (faults : Fault → Prop) (s : Supply) (act : Supplied α) (post : α → Supply → Prop) : Prop :=
  match act s with
  | .ok (a, t) => s.nextVar ≤ t.nextVar ∧ post a t
  | .error f => faults f

namespace Gives

theorem pure {a : α} {post : α → Supply → Prop} (ha : post a s) : Gives faults s (pure a) post :=
  ⟨Nat.le_refl _, ha⟩

theorem bind {act : Supplied α} {next : α → Supplied β} {mid : α → Supply → Prop}
    {post : β → Supply → Prop} (first : Gives faults s act mid)
    (second : ∀ a t, s.nextVar ≤ t.nextVar → mid a t → Gives faults t (next a) post) :
    Gives faults s (act >>= next) post := by
  unfold Gives at first ⊢
  simp only [Bind.bind, StateT.bind, Except.bind]
  generalize act s = outcome at first ⊢
  obtain f | ⟨a, t⟩ := outcome
  · exact first
  · have rest := second a t first.1 first.2
    unfold Gives at rest
    dsimp only
    generalize next a t = outcome at rest ⊢
    obtain f | ⟨b, u⟩ := outcome
    · exact rest
    · exact ⟨Nat.le_trans first.1 rest.1, rest.2⟩

theorem mono {act : Supplied α} {post post' : α → Supply → Prop} (given : Gives faults s act post)
    (weaker : ∀ a t, s.nextVar ≤ t.nextVar → post a t → post' a t) : Gives faults s act post' := by
  unfold Gives at given ⊢
  generalize act s = outcome at given ⊢
  obtain f | ⟨a, t⟩ := outcome
  · exact given
  · exact ⟨given.1, weaker a t given.1 given.2⟩

theorem ok_bind {a : α} {next : α → Supplied β} {post : β → Supply → Prop}
    (given : Gives faults s (next a) post) :
    Gives faults s (liftM (.ok a : Except Fault α) >>= next) post := given

theorem ofExcept {result : Except Fault α} (met : ∀ f, result = .error f → faults f) :
    Gives faults s (liftM result) fun a t => result = .ok a ∧ t = s := by
  cases result with
  | ok a => exact ⟨Nat.le_refl _, rfl, rfl⟩
  | error f => exact met f rfl

theorem liftSupply {draw : StateM Supply α} (grows : s.nextVar ≤ (draw.run s).2.nextVar) :
    Gives faults s (liftSupply draw) fun a t => (a, t) = draw.run s := ⟨grows, rfl⟩

end Gives

theorem Yields.gives {act : Supplied α} {post : α → Prop} (h : Yields act post) (s : Supply) :
    Gives (fun _ => True) s act fun a _ => post a := by
  unfold Gives
  cases run : act s with
  | error f => trivial
  | ok x => exact h s x.1 x.2 run

end

end QueryFunctions
