import QueryFunctions.Proofs.Tail.Evaluation

/-! Calls with more tail calls. A call that one run makes inside a function body the other may hand
back, and make when the body's frame is gone. Until then the second run is behind: it has the call
still to make that led the first to its outcome. -/
namespace QueryFunctions

open Run (tails)

namespace Flow

inductive MoreTail : Flow → Flow → Prop
  | done {v w : Value} : v.MoreTail w → MoreTail (.done v) (.done w)
  | call {next next' : PendingCall} : next.MoreTail next' → MoreTail (.call next) (.call next')

end Flow

def RunState.effects (s : RunState) : Supply × List Value × UInt64 × Host :=
  (s.supply, s.updates, s.random, s.host)

namespace Run

variable {call call' : Caller} {framed focused : Prop} {α β : Type} {rel : α → β → Prop}

/-- The second run has handed back, in state `t'`, a call that the first has made: its outcome
in some earlier state like `t'` is that of the first run. -/
structure HandsBack (call : Caller) (r : RunSetting) (result : Except QueryError Flow)
    (t : RunState) (result' : Except QueryError Flow) (t' : RunState) : Prop where
  behind : ∃ next next' u ended v, next.MoreTail next' ∧ result' = .ok (.call next') ∧
    u.MoreTail False False t' ∧ call next r u = (.ok ended, v) ∧ result = ended.map .done ∧
    v.effects = t.effects

/-- The second run of a body follows the first, or falls behind it by handing back a call. -/
def FollowsInTail (call : Caller) (framed focused : Prop) (act act' : Run Flow) : Prop :=
  ∀ r r' s s', RunSetting.MoreTail r r' → RunState.MoreTail framed focused s s' →
    ∀ result t, act r s = (.ok result, t) → (∀ e, result = .error e → ¬e.IsOverflow) →
      ∃ result' t', act' r' s' = (.ok result', t') ∧
        (Ends Flow.MoreTail result result' ∧ RunState.MoreTail framed focused t t' ∨
          HandsBack call r result t result' t')

namespace FollowsInTail

theorem of_follows {act act' : Run Flow} (h : (tails framed focused).Follows Flow.MoreTail act act') :
    FollowsInTail call framed focused act act' := by
  intro r r' s s' hr hs result t run free
  obtain ⟨result', t', run', ends, ht⟩ := h r r' s s' hr hs result t run free
  exact ⟨result', t', run', .inl ⟨ends, ht⟩⟩

theorem bind {act : Run α} {act' : Run β} {next : α → Run Flow} {next' : β → Run Flow}
    (first : (tails framed focused).Follows rel act act')
    (second : ∀ a b, rel a b → FollowsInTail call framed focused (next a) (next' b)) :
    FollowsInTail call framed focused (act >>= next) (act' >>= next') := by
  intro r r' s s' hr hs result u run free
  rw [Computation.run_bind] at run
  rw [Computation.run_bind]
  rcases h : act r s with ⟨f | e | a, t⟩
  · rw [h] at run
    cases run
  · rw [h] at run
    cases run
    obtain ⟨_, t', run', ⟨⟩, ht⟩ := first r r' s s' hr hs _ _ h (by rintro _ ⟨⟩; exact free e rfl)
    rw [run']
    exact ⟨_, _, rfl, .inl ⟨.error e, ht⟩⟩
  · rw [h] at run
    obtain ⟨_, t', run', ends, ht⟩ := first r r' s s' hr hs _ _ h (by rintro _ ⟨⟩)
    cases ends with
    | ok hab =>
      rw [run']
      exact second _ _ hab r r' t t' hr ht result u run free

theorem ite {p : Prop} [Decidable p] {yes no yes' no' : Run Flow}
    (hyes : FollowsInTail call framed focused yes yes')
    (hno : FollowsInTail call framed focused no no') :
    FollowsInTail call framed focused (if p then yes else no) (if p then yes' else no') := by
  split
  · exact hyes
  · exact hno

theorem handBack {next next' : PendingCall} (h : next.MoreTail next') :
    FollowsInTail call framed focused (do return .done (← call next)) (return .call next') := by
  intro r r' s s' _ hs result t run _
  rw [Computation.run_bind] at run
  refine ⟨_, s', rfl, .inr ⟨next, next', s, ?_⟩⟩
  rcases made : call next r s with ⟨f | e | v, u⟩
  · rw [made] at run
    cases run
  · rw [made] at run
    cases run
    exact ⟨.error e, _, h, rfl, hs.outer, rfl, rfl, rfl⟩
  · rw [made] at run
    cases run
    exact ⟨.ok v, _, h, rfl, hs.outer, rfl, rfl, rfl⟩

theorem leaving {framed' focused' : Prop} {act act' inner inner' : Run Flow}
    {enter : RunState → RunState} {leave : RunState → RunState → RunState}
    (run : ∀ r s, act r s = Run.leaving (leave s) (inner r (enter s)))
    (run' : ∀ r s, act' r s = Run.leaving (leave s) (inner' r (enter s)))
    (entered : ∀ {s s' : RunState}, s.MoreTail framed focused s' →
      (enter s).MoreTail framed' focused' (enter s'))
    (left : ∀ {s s' t t' : RunState}, s.MoreTail framed focused s' → t.MoreTail framed' focused' t' →
      (leave s t).MoreTail framed focused (leave s' t'))
    (outer : ∀ {s u t : RunState}, u.MoreTail False False t → u.MoreTail False False (leave s t))
    (effects : ∀ s t, (leave s t).effects = t.effects)
    (h : FollowsInTail call framed' focused' inner inner') :
    FollowsInTail call framed focused act act' := by
  intro r r' s s' hr hs result w ran free
  rw [run] at ran
  rcases first : inner r (enter s) with ⟨f | ended, t⟩
  · rw [first] at ran
    cases ran
  · rw [first] at ran
    cases ran
    obtain ⟨result', t', second, outcome⟩ := h r r' _ _ hr (entered hs) _ _ first free
    refine ⟨result', leave s' t', ?_, ?_⟩
    · rw [run', second]
      rfl
    · rcases outcome with ⟨ends, ht⟩ | ⟨next, next', u, ended, v, hnext, back, hu, made, eq, same⟩
      · exact .inl ⟨ends, left hs ht⟩
      · exact .inr ⟨next, next', u, ended, v, hnext, back, outer hu, made, eq,
          same.trans (effects s t).symm⟩

theorem withoutFocus {act act' : Run Flow} (h : FollowsInTail call framed True act act') :
    FollowsInTail call framed focused (Run.withoutFocus act) (Run.withoutFocus act') :=
  leaving (withoutFocus_run act) (withoutFocus_run act') .unfocused .refocused
    (fun hu => { hu with frame := False.elim, focus := False.elim }) (fun _ _ => rfl) h

theorem inFrame (size : Nat) {act act' : Run Flow} (h : FollowsInTail call True False act act') :
    FollowsInTail call False False (Run.inFrame size act) (Run.inFrame size act') :=
  leaving (inFrame_run size act) (inFrame_run size act') (fun hs => hs.pushed size)
    (fun _ ht => ht.popped _ _) (fun hu => { hu with frame := False.elim, focus := False.elim })
    (fun _ _ => rfl) h

end FollowsInTail

end Run

open Run (FollowsInTail)

section

variable {call call' : Caller} (calls : call.Follows call')

include calls

theorem Expr.MoreTail.done_follows {e e' : Expr} (h : e.MoreTail e') :
    FollowsInTail call True True (do return .done (← e.evaluate call))
      (do return .done (← e'.evaluate call')) :=
  .bind (h.evaluate_follows calls) fun _ _ hv => .of_follows (.pure (.done hv))

theorem CallSite.MoreTail.evaluateTail_follows {site site' : CallSite} {es es' : List Expr}
    (hsite : site.MoreTail site') (h : ListMoreTail es es') :
    FollowsInTail call True True ((Expr.call site es).evaluateTail call)
      ((Expr.call site' es').evaluateTail call') := by
  have args := h.evaluate_follows calls
  unfold Expr.evaluateTail
  cases left : site.tail with
  | true =>
    rw [if_pos rfl, if_pos (hsite.tail left), hsite.target_eq, hsite.span_eq]
    exact .bind args fun _ _ hvs => .of_follows (.pure (.call (.registered _ _ hvs)))
  | false =>
    rw [if_neg Bool.false_ne_true]
    split
    · rw [hsite.target_eq, hsite.span_eq]
      simp only [Expr.evaluate, bind_assoc]
      exact .bind args fun _ _ hvs => .handBack (.registered _ _ hvs)
    · exact (Expr.MoreTail.call hsite h).done_follows calls

theorem DynamicSite.MoreTail.evaluateTail_follows {site site' : DynamicSite} {f f' : Expr}
    {es es' : List Expr} (hsite : site.MoreTail site') (hf : f.MoreTail f')
    (h : ListMoreTail es es') :
    FollowsInTail call True True ((Expr.dynamicCall site f es).evaluateTail call)
      ((Expr.dynamicCall site' f' es').evaluateTail call') := by
  have args := h.evaluate_follows calls
  have callee := hf.evaluate_follows calls
  unfold Expr.evaluateTail
  cases left : site.tail with
  | true =>
    rw [if_pos rfl, if_pos (hsite.tail left), h.length_eq, hsite.span_eq]
    exact .bind callee fun _ _ hv => .bind (DynamicSite.callable_follows hsite hv _) fun _ _ hg =>
      .bind args fun _ _ hvs => .of_follows (.pure (.call (.item _ hg hvs)))
  | false =>
    rw [if_neg Bool.false_ne_true]
    split
    · rw [h.length_eq, hsite.span_eq]
      simp only [Expr.evaluate, bind_assoc]
      exact .bind callee fun _ _ hv => .bind (DynamicSite.callable_follows hsite hv _)
        fun _ _ hg => .bind args fun _ _ hvs => .handBack (.item _ hg hvs)
    · exact (Expr.MoreTail.dynamicCall hsite hf h).done_follows calls

theorem Expr.MoreTail.branch_follows {c c' y y' n n' : Expr} (span : Span) (h : c.MoreTail c')
    (hy : FollowsInTail call True True (y.evaluateTail call) (y'.evaluateTail call'))
    (hn : FollowsInTail call True True (n.evaluateTail call) (n'.evaluateTail call')) :
    FollowsInTail call True True ((Expr.branch c y n span).evaluateTail call)
      ((Expr.branch c' y' n' span).evaluateTail call') :=
  .bind (h.evaluate_follows calls) fun v w hv => by
    rw [hv.looksLike.ebv_eq]
    refine .bind (Likeness.Follows.ofExcept (.refl (fun _ => rfl) _)) fun b _ same => ?_
    cases same
    exact .ite hy hn

theorem Expr.MoreTail.evaluateTail_follows : {e e' : Expr} → e.MoreTail e' →
    FollowsInTail call True True (e.evaluateTail call) (e'.evaluateTail call')
  | _, _, .branch span h h' h'' =>
    branch_follows calls span h h'.evaluateTail_follows h''.evaluateTail_follows
  | _, _, .letIn _ slot h h' => .bind (h.evaluate_follows calls) fun _ _ hv =>
    .bind (Run.set_follows slot hv) fun _ _ _ => h'.evaluateTail_follows
  | _, _, .call hsite h => hsite.evaluateTail_follows calls h
  | _, _, .dynamicCall hsite hf h => hsite.evaluateTail_follows calls hf h
  | _, _, h@(.value _) | _, _, h@(.var _) | _, _, h@(.arith _ _ _ _)
  | _, _, h@(.compare _ _ _ _) | _, _, h@(.seq _) | _, _, h@(.focus _) | _, _, h@(.treat _ _ _)
  | _, _, h@(.builtin _ _ _) | _, _, h@(.error _) | _, _, h@(.closure _) | _, _, h@(.literal _ _)
  | _, _, h@(.partialApply _ _ _) => h.done_follows calls

end

namespace Run

variable {framed focused : Prop}

theorem bindParams_follows (function : String) (span : Span) :
    ∀ (params : List Variable) {vs ws : List Value}, ValuesMoreTail vs ws →
      (tails True focused).Follows (fun _ _ => True) (bindParams function span params vs)
        (bindParams function span params ws)
  | [], _, _, .nil => .pure trivial
  | [], _, _, .cons _ _ => .pure trivial
  | _ :: _, _, _, .nil => .pure trivial
  | p :: ps, _, _, @ValuesMoreTail.cons v w vs ws h h' => by
    have rest : (tails True focused).Follows (fun _ _ => True)
        (do set p.slot v; bindParams function span ps vs)
        (do set p.slot w; bindParams function span ps ws) :=
      (set_follows p.slot h).bind fun _ _ _ => bindParams_follows function span ps h'
    unfold bindParams
    split
    · rw [h.looksLike.accepts_eq, h.looksLike.typeName_eq]
      exact .ite Iff.rfl ((Likeness.Follows.throw _).bind fun _ _ (_ : True) => rest) rest
    · exact rest

theorem bodyOf_follows (target : FuncId) (span : Span) :
    (tails framed focused).Follows (fun p q => p.1.MoreTail q.1 ∧ p.2.MoreTail q.2)
      (bodyOf target span) (bodyOf target span) := by
  refine Likeness.Follows.read.bind fun r r' hr => ?_
  have found := hr.registry.find? target
  generalize r.registry.find? target = entry at found ⊢
  generalize r'.registry.find? target = entry' at found ⊢
  cases found with
  | none => exact .of_fault fun r t => ⟨_, _, rfl⟩
  | @some e e' he =>
    have hbody := he.body
    simp only [he.stage_eq, he.name_eq, he.arity_eq]
    generalize e.body = body at hbody ⊢
    generalize e'.body = body' at hbody ⊢
    cases hbody with
    | some hbody => exact .pure ⟨he, hbody⟩
    | none =>
      split
      · contradiction
      · exact .throw _
      · exact .throw _

section

variable {call call' : Caller} (calls : call.Follows call')

include calls

theorem inBody_follows {body body' : Expr} (h : body.MoreTail body') (size : Nat)
    {enter enter' : Run Unit} (entered : (tails True False).Follows (fun _ _ => True) enter enter') :
    FollowsInTail call False False (inFrame size do enter; withoutFocus (body.evaluateTail call))
      (inFrame size do enter'; withoutFocus (body'.evaluateTail call')) :=
  .inFrame size (.bind entered fun _ _ _ => .withoutFocus (h.evaluateTail_follows calls))

theorem stepItem_follows {f g : FuncItem} (h : f.MoreTail g) {vs ws : List Value}
    (hvs : ValuesMoreTail vs ws) (span : Span) :
    FollowsInTail call False False (stepItem call f vs span) (stepItem call' g ws span) := by
  unfold stepItem
  rw [h.looksLike.arity_eq, h.looksLike.text_eq, hvs.length_eq]
  have code := h.code
  generalize f.code = c at code ⊢
  generalize g.code = d at code ⊢
  cases code with
  | builtin b =>
    have rest : FollowsInTail call False False (do return .done (← b.apply call.invoke vs span))
        (do return .done (← b.apply call'.invoke ws span)) :=
      .bind (Builtin.apply_moreTail calls b hvs span) fun _ _ hv => .of_follows (.pure (.done hv))
    exact .ite (.bind (Likeness.Follows.throw _) fun _ _ (_ : True) => rest) rest
  | @closure params scope captured captured' body body' hcaptured hbody =>
    have each : ∀ p q : Variable × Value, p.1 = q.1 ∧ p.2.MoreTail q.2 →
        (tails True False).Follows (fun _ _ => True) (set p.1.slot p.2) (set q.1.slot q.2) := by
      intro p q hpq
      rw [hpq.1]
      exact set_follows _ hpq.2
    have entered := (Likeness.Follows.forM each (capturedMoreTail_iff.1 hcaptured)).bind
      fun _ _ _ => bindParams_follows f.text span params hvs
    have rest := inBody_follows calls hbody scope.frameSize entered
    simp only [bind_assoc] at rest
    exact .ite (.bind (Likeness.Follows.throw _) fun _ _ (_ : True) => rest) rest

theorem step_follows {next next' : PendingCall} (h : next.MoreTail next') :
    FollowsInTail call False False (step call next) (step call' next') := by
  cases h with
  | registered target span hvs =>
    refine .bind (bodyOf_follows target span) fun p q hpq => ?_
    obtain ⟨entry, body⟩ := p
    obtain ⟨entry', body'⟩ := q
    have hentry : entry.MoreTail entry' := hpq.1
    have hbody : body.MoreTail body' := hpq.2
    simp only [hentry.scope_eq, hentry.name_eq, hentry.arity_eq, hentry.paramVariables_eq]
    exact inBody_follows calls hbody _ (bindParams_follows _ span _ hvs)
  | item span h hvs => exact stepItem_follows calls h hvs span
  | callback span h hvs => exact stepItem_follows calls h hvs span

end

theorem loop_givesBack (budget : Nat) : Caller.GivesBack fun next => nested (loop budget next) :=
  fun next => (loop_restores budget next).nested

/-- What is left to do when the second run has handed back a call: the first has made it already, one
level deeper. -/
theorem HandsBack.loop_follows {budget : Nat} {r r' : RunSetting} {s s' t t' : RunState}
    {result : Except QueryError Flow} {flow : Except QueryError Flow}
    (again : ∀ {next next' : PendingCall}, next.MoreTail next' →
      (tails False False).Follows Value.MoreTail (loop budget next) (loop budget next'))
    (back : HandsBack (fun next => nested (loop budget next)) r result t flow t')
    (hr : r.MoreTail r') (free : ∀ e, result = .error e → ¬e.IsOverflow)
    (depth : t.depth = s.depth) (depth' : t'.depth = s'.depth) (shallow : s'.depth ≤ s.depth) :
    ∃ next' ended ended' w, flow = .ok (.call next') ∧ result = ended.map .done ∧
      loop budget next' r' t' = (.ok ended', w) ∧ Ends Value.MoreTail ended ended' ∧
      t.MoreTail False False w := by
  obtain ⟨next, next', u, ended, v, hnext, rfl, hu, made, rfl, effects⟩ := back
  have free : ∀ e, ended = .error e → ¬e.IsOverflow := by
    rintro e rfl
    exact free e rfl
  rw [nested_run] at made
  cases full : u.overflow? r.options with
  | some e =>
    rw [full] at made
    cases made
    exact absurd (RunState.exists_of_overflow? full) (free _ rfl)
  | none =>
    rw [full] at made
    rcases inner : loop budget next r u.deeper with ⟨f | ended', v'⟩
    · rw [inner] at made
      cases made
    · rw [inner] at made
      cases made
      have deeper : u.deeper.MoreTail False False t' :=
        { hu with depth := Nat.le_succ_of_le hu.depth, frame := False.elim, focus := False.elim }
      obtain ⟨ended', w, run', ends, hw⟩ := again hnext r r' _ _ hr deeper _ _ inner free
      obtain ⟨-, restored, -⟩ := loop_restores budget next' r' t' _ _ run'
      simp only [RunState.effects, RunState.shallower, Prod.mk.injEq] at effects
      obtain ⟨supply, updates, random, host⟩ := effects
      refine ⟨next', ended, ended', w, rfl, rfl, run', ends, ?_⟩
      exact { hw with
        supply := by rw [hw.supply, supply]
        updates := by rw [← updates]; exact hw.updates
        random := by rw [hw.random, random]
        host := by rw [← host]; exact hw.host
        depth := by rw [restored.depth, depth', depth]; exact shallow
        frame := False.elim
        focus := False.elim }

/-- With more tail calls the loop goes on longer at one depth, where it did go deeper. The budget is
used up by the calls in a row and in one another alike, so it is the same for both. -/
theorem loop_follows (budget : Nat) {next next' : PendingCall} (h : next.MoreTail next') :
    (tails False False).Follows Value.MoreTail (loop budget next) (loop budget next') := by
  induction budget generalizing next next' with
  | zero => exact .of_fault fun r s => ⟨_, _, rfl⟩
  | succ budget ih =>
    refine checkInterrupt_follows.bind fun _ _ _ => ?_
    intro r r' s s' hr hs result w run free
    have calls : Caller.Follows (fun next => nested (loop budget next))
        (fun next => nested (loop budget next)) :=
      ⟨fun h => nested_follows (ih h), loop_givesBack budget, loop_givesBack budget⟩
    rw [Computation.run_bind] at run
    rw [Computation.run_bind]
    rcases first : step (fun next => nested (loop budget next)) next r s with ⟨f | ended, t⟩
    · rw [first] at run
      cases run
    · have free' : ∀ e, ended = .error e → ¬e.IsOverflow := by
        rintro e rfl
        rw [first] at run
        cases run
        exact free e rfl
      obtain ⟨flow, t', second, outcome⟩ := step_follows calls h r r' s s' hr hs _ _ first free'
      rw [second]
      rcases outcome with ⟨ends, ht⟩ | back
      · rw [first] at run
        cases ends with
        | error e =>
          cases run
          exact ⟨_, _, rfl, .error e, ht⟩
        | ok hflow =>
          cases hflow with
          | done hv =>
            cases run
            exact ⟨_, _, rfl, .ok hv, ht⟩
          | call hnext => exact ih hnext r r' t t' hr ht _ _ run free
      · obtain ⟨-, left, -⟩ := step_restores (loop_givesBack budget) next r s _ _ first
        obtain ⟨-, right, -⟩ := step_restores (loop_givesBack budget) next' r' s' _ _ second
        obtain ⟨next'', result₁, result₁', w', rfl, rfl, run', ends, ht⟩ :=
          back.loop_follows ih hr free' left.depth right.depth hs.depth
        rw [first] at run
        cases ends with
        | error e =>
          cases run
          exact ⟨_, _, run', .error e, ht⟩
        | ok hv =>
          cases run
          exact ⟨_, _, run', .ok hv, ht⟩

theorem call_follows (budget : Nat) : Caller.Follows (call budget) (call budget) :=
  ⟨fun h => nested_follows (loop_follows budget h), call_restores budget, call_restores budget⟩

theorem evaluate_follows (budget : Nat) {e e' : Expr} (h : e.MoreTail e') :
    (tails True True).Follows Value.MoreTail (evaluate budget e) (evaluate budget e') :=
  h.evaluate_follows (call_follows budget)

end Run

end QueryFunctions
