import QueryFunctions.Proofs.Law.Basic
import QueryFunctions.Proofs.Law.Contract
import QueryFunctions.Proofs.Law.Supplied

/-! Pacts. Two computations run side by side: the first keeps a law, and the second ends in the same way
wherever the first ends near enough to some goal. Whether a state is near can only be told in the end, so
nearness is handed back from later states to earlier ones. Single steps of the compiler keep every contract
and every pact. -/
namespace QueryFunctions

structure Pact (σ : Type) extends Law σ where
  near : σ → Prop
  back : ∀ {s t}, leads s t → near t → near s

namespace Pact

variable {ρ σ α β : Type} {pact : Pact σ} {r : ρ} {s : σ}

/-- Started in `s`, the first computation keeps the law, and the second follows it wherever it ends near
the goal. -/
structure Keeps (pact : Pact σ) (r : ρ) (s : σ) (act act' : Computation ρ σ α)
    (post : α → σ → Prop) : Prop where
  law : pact.toLaw.Keeps r s act post
  follows : ∀ result t, act r s = (.ok result, t) → pact.near t → act' r s = (.ok result, t)

namespace Keeps

theorem same {act : Computation ρ σ α} {post : α → σ → Prop}
    (kept : pact.toLaw.Keeps r s act post) : pact.Keeps r s act act post :=
  ⟨kept, fun _ _ run _ => run⟩

theorem pure {a : α} {post : α → σ → Prop} (hs : pact.holds s) (ha : post a s) :
    pact.Keeps r s (pure a) (pure a) post := same (.pure hs ha)

theorem throw {e : QueryError} {post : α → σ → Prop} (hs : pact.holds s) :
    pact.Keeps r s (throw e : Computation ρ σ α) (throw e) post := same (.throw hs)

theorem mono {act act' : Computation ρ σ α} {post post' : α → σ → Prop}
    (kept : pact.Keeps r s act act' post)
    (weaker : ∀ a t, pact.holds t → pact.leads s t → post a t → post' a t) :
    pact.Keeps r s act act' post' := ⟨kept.law.mono weaker, kept.follows⟩

theorem bind {act act' : Computation ρ σ α} {next next' : α → Computation ρ σ β}
    {m : α → σ → Prop} {post : β → σ → Prop} (first : pact.Keeps r s act act' m)
    (second : ∀ a t, pact.holds t → pact.leads s t → m a t →
      pact.Keeps r t (next a) (next' a) post) :
    pact.Keeps r s (act >>= next) (act' >>= next') post := by
  refine ⟨first.law.bind fun a t ht hst ha => (second a t ht hst ha).law, fun result u run near => ?_⟩
  rw [Computation.run_bind] at run
  rw [Computation.run_bind]
  rcases h : act r s with ⟨f | e | a, t⟩
  · rw [h] at run
    cases run
  · rw [h] at run
    cases run
    rw [first.follows _ _ h near]
  · rw [h] at run
    obtain ⟨ht, hst, ha⟩ := first.law _ _ h
    have rest := second a t ht hst (ha a rfl)
    rw [first.follows _ _ h (pact.back (rest.law _ _ run).2.1 near)]
    exact rest.follows _ _ run near

theorem skip {act act' : Computation ρ σ α} {next next' : α → Computation ρ σ β}
    {mid : α → σ → Prop} {post : β → σ → Prop} (first : pact.Keeps r s act act' mid)
    (second : ∀ a t, pact.holds t → pact.leads s t → pact.Keeps r t (next a) (next' a) post) :
    pact.Keeps r s (act >>= next) (act' >>= next') post :=
  first.bind fun a t ht hst _ => second a t ht hst

theorem of_eq {act : Computation ρ σ α} {a : α} {t : σ} {post : α → σ → Prop}
    (run : act r s = (.ok (.ok a), t)) (ht : pact.holds t) (hst : pact.leads s t) (ha : post a t) :
    pact.Keeps r s act act post := same (.of_eq run ht hst ha)

theorem after {act act' rest rest' : Computation ρ σ α} {t : σ} {post : α → σ → Prop}
    (run : act r s = rest r t) (run' : act' r s = rest' r t) (hst : pact.leads s t)
    (kept : pact.Keeps r t rest rest' post) : pact.Keeps r s act act' post := by
  refine ⟨.after run hst kept.law, fun result u ran near => ?_⟩
  rw [run] at ran
  rw [run']
  exact kept.follows result u ran near

/-- Part of the computations, which raises nothing, may keep another pact that leads on alike. -/
theorem enclosing {pact' : Pact σ} {act act' : Computation ρ σ β} {inner inner' : Computation ρ σ α}
    {rest rest' : α → Computation ρ σ β} {t : σ} {mid : α → σ → Prop} {post : β → σ → Prop}
    (run : act r s = (inner >>= rest) r t) (run' : act' r s = (inner' >>= rest') r t)
    (hst : pact.leads s t) (kept : pact'.Keeps r t inner inner' mid)
    (quiet : ∀ e u, inner r t ≠ (.ok (.error e), u)) (leads : ∀ {u}, pact'.leads t u → pact.leads t u)
    (near : ∀ {u}, pact.near u → pact'.near u)
    (ending : ∀ a u, pact'.holds u → pact'.leads t u → mid a u →
      pact.Keeps r u (rest a) (rest' a) post) : pact.Keeps r s act act' post := by
  refine after run run' hst ⟨fun result w ran => ?_, fun result w ran there => ?_⟩
  all_goals
    rw [Computation.run_bind] at ran
    rcases h : inner r t with ⟨f | e | a, u⟩
    · rw [h] at ran
      cases ran
    · exact absurd h (quiet e u)
    rw [h] at ran
    obtain ⟨hu, htu, ha⟩ := kept.law _ _ h
    have rest := ending a u hu htu (ha a rfl)
  · obtain ⟨hw, huw, value⟩ := rest.law result w ran
    exact ⟨hw, pact.trans (leads htu) huw, value⟩
  · have before := near (pact.back (rest.law result w ran).2.1 there)
    rw [Computation.run_bind, kept.follows _ _ h before]
    exact rest.follows result w ran there

theorem get (hs : pact.holds s) :
    pact.Keeps r s (get : Computation ρ σ σ) MonadState.get fun a t => a = s ∧ t = s :=
  same (.get hs)

theorem read (hs : pact.holds s) :
    pact.Keeps r s (read : Computation ρ σ ρ) MonadReader.read fun a t => a = r ∧ t = s :=
  same (.read hs)

theorem attempt {act act' : Computation ρ σ α} {post : α → σ → Prop}
    (kept : pact.Keeps r s act act' post) :
    pact.Keeps r s
      (fun r s => ((act r s).1.map .ok, (act r s).2) : Computation ρ σ (Except QueryError α))
      (fun r s => ((act' r s).1.map .ok, (act' r s).2))
      fun result t => ∀ a, result = .ok a → post a t := by
  refine ⟨.attempt kept.law, fun result t run near => ?_⟩
  rcases h : act r s with ⟨f | ended, u⟩
  · simp only [h] at run
    cases run
  · simp only [h] at run
    cases run
    simp only [kept.follows _ _ h near]
    rfl

theorem foldlM {f f' : β → α → Computation ρ σ β} {pre : α → σ → Prop} {post : β → σ → Prop}
    (stable : ∀ a s t, pact.leads s t → pre a s → pre a t)
    (each : ∀ b a s, pact.holds s → post b s → pre a s → pact.Keeps r s (f b a) (f' b a) post) :
    ∀ (as : List α) (b : β) (s : σ), pact.holds s → post b s → (∀ a ∈ as, pre a s) →
      pact.Keeps r s (as.foldlM f b) (as.foldlM f' b) post
  | [], b, s, hs, hb, _ => pure hs hb
  | a :: as, b, s, hs, hb, all => by
    rw [List.foldlM_cons, List.foldlM_cons]
    refine (each b a s hs hb (all a (by simp))).bind fun b' t ht hst hb' => ?_
    have rest : ∀ x ∈ as, pre x t := fun x hx => stable x s t hst (all x (by simp [hx]))
    exact foldlM stable each as b' t ht hb' rest

theorem forM {f f' : α → Computation ρ σ PUnit}
    (each : ∀ a s, pact.holds s → pact.Keeps r s (f a) (f' a) fun _ _ => True) :
    ∀ (as : List α) (s : σ), pact.holds s →
      pact.Keeps r s (as.forM f) (as.forM f') fun _ _ => True
  | [], _, hs => pure hs trivial
  | a :: as, s, hs => (each a s hs).skip fun _ t ht _ => forM each as t ht

theorem weaken {pact' : Pact σ} {act act' : Computation ρ σ α} {post post' : α → σ → Prop}
    (kept : pact.Keeps r s act act' post) (near : ∀ t, pact.holds t → pact'.near t → pact.near t)
    (weaker : ∀ t, pact.holds t → pact.leads s t →
      pact'.holds t ∧ pact'.leads s t ∧ ∀ a, post a t → post' a t) :
    pact'.Keeps r s act act' post' := by
  refine ⟨fun result t run => ?_, fun result t run there => ?_⟩
  · obtain ⟨ht, hst, value⟩ := kept.law result t run
    obtain ⟨ht', hst', each⟩ := weaker t ht hst
    exact ⟨ht', hst', fun a ha => each a (value a ha)⟩
  · exact kept.follows result t run (near t (kept.law result t run).1 there)

end Keeps

end Pact

namespace Contract.Keeps

variable {c : Contract CompileState} {o : Options} {s : CompileState} {α : Type}

theorem draw {act : Supplied α} {post : α → Supply → Prop} (given : Gives c.faults s.supply act post)
    (grown : ∀ supply : Supply, s.supply.nextVar ≤ supply.nextVar →
      c.holds { s with supply } ∧ c.leads s { s with supply }) :
    c.Keeps o s (Compile.draw act) fun a t => post a t.supply ∧ t = { s with supply := t.supply } := by
  unfold Gives at given
  cases drawn : act s.supply with
  | error f =>
    rw [drawn] at given
    exact of_fault (by simp only [Compile.draw, drawn]) given
  | ok x =>
    rw [drawn] at given
    obtain ⟨holds, leads⟩ := grown x.2 given.1
    exact of_eq (t := { s with supply := x.2 }) (by simp only [Compile.draw, drawn]) holds leads
      ⟨given.2, rfl⟩

theorem entryOf (hs : c.holds s) {id : FuncId}
    (missing : s.registry.find? id = none → c.faults (.missingFunction id)) :
    c.Keeps o s (Compile.entryOf id) fun e t => s.registry.find? id = some e ∧ t = s := by
  refine bind (get hs) fun _ t ht _ same => ?_
  obtain ⟨rfl, rfl⟩ := same
  split
  · rename_i e found
    exact pure ht ⟨found, rfl⟩
  · rename_i none
    exact of_fault rfl (missing none)

theorem ofFaulty (hs : c.holds s) {result : Except Fault α}
    (met : ∀ f, result = .error f → c.faults f) :
    c.Keeps o s (Compile.ofFaulty result) fun a t => result = .ok a ∧ t = s := by
  cases result with
  | ok a => exact pure hs ⟨rfl, rfl⟩
  | error f => exact of_fault rfl (met f rfl)

theorem deferred (hs : c.holds s) {result : Except QueryError Expr} {post : Expr → CompileState → Prop}
    (value : ∀ e, result = .ok e → post e s)
    (error : ∀ err, result = .error err → c.raises err ∧ post (.error err) s) :
    c.Keeps o s (Compile.deferred result) post := by
  cases result with
  | ok e => exact pure hs (value e rfl)
  | error err =>
    obtain ⟨raised, later⟩ := error err rfl
    unfold Compile.deferred
    dsimp only
    split
    · exact throw hs raised
    · exact pure hs later

end Contract.Keeps

namespace Pact.Keeps

variable {pact : Pact CompileState} {o : Options} {s : CompileState} {α : Type}

theorem entryOf (hs : pact.holds s) (id : FuncId) :
    pact.Keeps o s (Compile.entryOf id) (Compile.entryOf id) fun e t =>
      s.registry.find? id = some e ∧ t = s := by
  refine (get hs).bind fun _ t ht _ same => ?_
  obtain ⟨rfl, rfl⟩ := same
  split
  · rename_i e found
    exact pure ht ⟨found, rfl⟩
  · exact .same (.of_fault rfl)

theorem deferred (hs : pact.holds s) {result : Except QueryError Expr}
    {post : Expr → CompileState → Prop} (value : ∀ e, result = .ok e → post e s)
    (error : ∀ err, post (.error err) s) :
    pact.Keeps o s (Compile.deferred result) (Compile.deferred result) post := by
  unfold Compile.deferred
  split
  · exact pure hs (value _ rfl)
  · split
    · exact throw hs
    · exact pure hs (error _)

theorem inScope (inner : Scope) {act act' : Compile α} {post : α → CompileState → Prop}
    (kept : pact.Keeps o { s with scope := inner } act act' post)
    (back : ∀ t, pact.holds t → pact.leads { s with scope := inner } t →
      pact.holds { t with scope := s.scope } ∧ pact.leads s { t with scope := s.scope })
    (near : ∀ t, pact.near { t with scope := s.scope } → pact.near t) :
    pact.Keeps o s (Compile.inScope inner act) (Compile.inScope inner act') fun x u =>
      ∃ t, u = { t with scope := s.scope } ∧ x.2 = t.scope ∧
        pact.leads { s with scope := inner } t ∧ ∀ a, x.1 = .ok a → post a t := by
  refine ⟨fun result u run => ?_, fun result u run there => ?_⟩
  all_goals
    rcases h : act o { s with scope := inner } with ⟨f | ended, t⟩
    · simp only [Compile.inScope, h] at run
      cases run
    simp only [Compile.inScope, h] at run
    cases run
  · obtain ⟨ht, hst, value⟩ := kept.law _ _ h
    obtain ⟨hu, hsu⟩ := back t ht hst
    exact ⟨hu, hsu, by rintro _ ⟨⟩; exact ⟨t, rfl, rfl, hst, value⟩⟩
  · simp only [Compile.inScope, kept.follows _ _ h (near t there)]
    rfl

end Pact.Keeps

end QueryFunctions
