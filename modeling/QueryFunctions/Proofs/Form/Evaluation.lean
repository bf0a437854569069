import QueryFunctions.Proofs.Form.Compilation
import QueryFunctions.Proofs.Form.Runs

/-! Well-formed code runs without a fault: slots that it names are slots of its frame, and functions that
it calls are there. Its values are well formed, and it writes to no slot that is spared: while a body is
run, the slots of its parameters are frozen. -/
namespace QueryFunctions

open Contract

variable {w : World} {g : Ground} {r : RunSetting} {s : RunState}

/-- In the frame all slots of the scope are there, and those that may be written to are not frozen. -/
structure Ground.Suits (g : Ground) (p : Place) : Prop where
  inside : ∀ x ∈ p.scope.layout, x.2 < g.size
  free : ∀ slot, ¬p.spared slot → ¬g.frozen (g.base + slot)

theorem Ground.Suits.opened {p : Place} (h : g.Suits p) (id : VarId) : g.Suits (p.opened id) :=
  ⟨h.inside, h.free⟩

namespace FuncItem

theorem checkUpdating_forms {f : FuncItem} (hs : s.Formed w g) (updating : Bool) (span : Span) :
    (runContract w g).Keeps r s (f.checkUpdating updating span) fun _ _ => True := by
  refine Keeps.bind (Keeps.read hs) fun _ t ht _ _ => ?_
  split
  · dsimp only
    split
    · exact Keeps.refuse ht (w.common _ rfl)
    · split
      · exact Keeps.throw ht (w.common _ rfl)
      · exact Keeps.pure ht trivial
  · exact Keeps.pure ht trivial

end FuncItem

theorem DynamicSite.callable_forms {site : DynamicSite} {callee : Value} (hs : s.Formed w g)
    (hc : callee.Formed w) (arity : Nat) :
    (runContract w g).Keeps r s (site.callable callee arity) fun f _ => f.Formed w := by
  refine Keeps.bind (Keeps.ofExcept hs fun e failed =>
    w.common e (QueryError.asFunc_isResolution failed)) fun f t ht _ found => ?_
  split
  · exact Keeps.refuse ht (w.common _ rfl)
  · refine Keeps.bind (FuncItem.checkUpdating_forms ht _ _) fun _ u hu _ _ => ?_
    exact Keeps.pure hu (hc.asFunc found.1)

theorem PartialSite.callable_forms {site : PartialSite} {target : Value} (hs : s.Formed w g)
    (ht : target.Formed w) (arity : Nat) :
    (runContract w g).Keeps r s (site.callable target arity) fun f _ =>
      f.Formed w ∧ f.arity = arity := by
  refine Keeps.bind (Keeps.ofExcept hs fun e failed =>
    w.common e (QueryError.asFunc_isResolution failed)) fun f t hs _ found => ?_
  split
  · exact Keeps.throw hs (w.common _ rfl)
  · rename_i same
    exact Keeps.pure hs ⟨ht.asFunc found.1, not_not.1 same⟩

section

variable {call : Caller} (calls : CallerForms w r call)

mutual
theorem Expr.evaluate_forms (calls : CallerForms w r call) :
    (e : Expr) → {p : Place} → g.Suits p → e.Formed w p →
    (s : RunState) → s.Formed w g →
    (runContract w g).Keeps r s (e.evaluate call) fun v _ => v.Formed w
  | .value _, _, _, .value hv, _, hs => Keeps.pure hs hv
  | .var _, _, suits, .var _ mem, _, hs => Run.get_forms hs (suits.inside _ mem)
  | .letIn _ slot value body, _, suits, .letIn mem spared hvalue hbody, s, hs => by
    refine Keeps.bind (Expr.evaluate_forms calls value suits hvalue s hs) fun v t ht _ hv => ?_
    refine Keeps.bind (Run.set_forms ht (suits.inside _ mem) (suits.free slot spared) hv)
      fun _ u hu _ _ => ?_
    exact Expr.evaluate_forms calls body (suits.opened _) hbody u hu
  | .branch cond yes no span, _, suits, .branch hcond hyes hno, s, hs => by
    refine Keeps.bind (Expr.evaluate_forms calls cond suits hcond s hs) fun v t ht _ _ => ?_
    refine Keeps.bind (Keeps.ofExcept ht fun e failed =>
      w.common e (QueryError.ebv_isResolution failed)) fun b u hu _ _ => ?_
    split
    · exact Expr.evaluate_forms calls yes suits hyes u hu
    · exact Expr.evaluate_forms calls no suits hno u hu
  | .arith op lhs rhs span, _, suits, .arith hl hr, s, hs => by
    refine Keeps.bind (Expr.evaluate_forms calls lhs suits hl s hs) fun x t ht _ _ => ?_
    refine Keeps.bind (Expr.evaluate_forms calls rhs suits hr t ht) fun y u hu _ _ => ?_
    refine (Keeps.ofExcept hu fun e failed =>
      w.common e (QueryError.arith_isResolution failed)).mono fun v _ _ _ computed => ?_
    exact Value.formed_of_arith computed.1
  | .compare op lhs rhs span, _, suits, .compare hl hr, s, hs => by
    refine Keeps.bind (Expr.evaluate_forms calls lhs suits hl s hs) fun x t ht _ _ => ?_
    refine Keeps.bind (Expr.evaluate_forms calls rhs suits hr t ht) fun y u hu _ _ => ?_
    refine Keeps.bind (Keeps.ofExcept hu fun e failed =>
      w.common e (QueryError.compare_isResolution failed)) fun b v hv _ _ => Keeps.pure hv .bool
  | .seq items, _, suits, .seq all, s, hs => by
    refine Keeps.bind (evaluateList_forms calls items suits all s hs) fun vs t ht _ hvs => ?_
    exact Keeps.pure ht (Value.formed_ofItems hvs.2)
  | .focus span, _, _, _, s, hs => Run.focus_forms hs span
  | .treat expr type span, _, suits, .treat he, s, hs => by
    refine Keeps.bind (Expr.evaluate_forms calls expr suits he s hs) fun v t ht _ hv => ?_
    split
    · exact Keeps.pure ht hv
    · exact Keeps.throw ht (w.common _ rfl)
  | .builtin function args span, _, suits, .builtin all, s, hs => by
    refine Keeps.bind (evaluateList_forms calls args suits all s hs) fun vs t ht _ hvs => ?_
    exact Builtin.apply_forms calls function ht hvs.2 span
  | .error _, _, _, .error he, _, hs => Keeps.throw hs he
  | .closure c, _, suits, .closure hc, s, hs => by
    refine Keeps.bind (Closure.evaluate_forms calls c suits hc s hs) fun f t ht _ hf => ?_
    exact Keeps.pure ht (.func hf)
  | .literal _ c, _, suits, .literal _ _ hc, s, hs => by
    refine Keeps.bind (Closure.evaluate_forms calls c suits hc s hs) fun f t ht _ hf => ?_
    exact Keeps.pure ht (.func hf)
  | .partialApply site target args, _, suits, .partialApply holes htarget hargs, s, hs => by
    refine Keeps.bind (Expr.evaluate_forms calls target suits htarget s hs) fun v t ht _ hv => ?_
    refine Keeps.bind (PartialSite.callable_forms ht hv _) fun f u hu _ hf => ?_
    refine Keeps.bind (evaluateList_forms calls args suits hargs u hu) fun vs x hx _ hvs => ?_
    refine Keeps.bind (Run.draw_forms hx
      (PartialApplication.make_forms hf.1 hvs.2 (hf.2 ▸ holes) _)) fun item y hy _ hitem => ?_
    exact Keeps.pure hy (.func hitem)
  | .call site args, _, suits, .call called hargs, s, hs => by
    refine Keeps.bind (evaluateList_forms calls args suits hargs s hs) fun vs t ht _ hvs => ?_
    exact calls g (.registered site.target vs site.span) t ht ⟨hvs.1 ▸ called, hvs.2⟩
  | .dynamicCall site callee args, _, suits, .dynamicCall hcallee hargs, s, hs => by
    refine Keeps.bind (Expr.evaluate_forms calls callee suits hcallee s hs) fun v t ht _ hv => ?_
    refine Keeps.bind (DynamicSite.callable_forms ht hv _) fun f u hu _ hf => ?_
    refine Keeps.bind (evaluateList_forms calls args suits hargs u hu) fun vs x hx _ hvs => ?_
    exact calls g (.item f vs site.span) x hx ⟨hf, hvs.2⟩

theorem evaluateList_forms (calls : CallerForms w r call) : (es : List Expr) → {p : Place} → g.Suits p →
    (∀ e ∈ es, e.Formed w p) → (s : RunState) → s.Formed w g →
    (runContract w g).Keeps r s (evaluateList call es) fun vs _ =>
      vs.length = es.length ∧ ∀ v ∈ vs, v.Formed w
  | [], _, _, _, _, hs => Keeps.pure hs ⟨rfl, by simp⟩
  | e :: es, _, suits, all, s, hs => by
    refine Keeps.bind (Expr.evaluate_forms calls e suits (all e (by simp)) s hs) fun v t ht _ hv => ?_
    refine Keeps.bind (evaluateList_forms calls es suits (fun x mem => all x (by simp [mem])) t ht)
      fun vs u hu _ hvs => ?_
    exact Keeps.pure hu ⟨by simp [hvs.1], List.forall_mem_cons.2 ⟨hv, hvs.2⟩⟩

theorem Closure.evaluate_forms (calls : CallerForms w r call) :
    (c : Closure) → {p : Place} → g.Suits p → c.Formed w p →
    (s : RunState) → s.Formed w g →
    (runContract w g).Keeps r s (c.evaluate call) fun f _ => f.Formed w
  | ⟨name, params, body, declared, annotations, scope, captures, origin, done, span⟩, p, suits, hc,
      s, hs => by
    have supplied : (∀ x ∈ captures, x.1 ∈ scope.layout.map Prod.fst) ∧
        ∀ x ∈ captures, x.2.Formed w p := by
      cases hc with
      | intro serves _ hcaptures _ =>
        exact ⟨fun x mem => serves.known x.1 (.inr (List.mem_map_of_mem mem)), hcaptures⟩
    refine Keeps.bind (evaluateSupplies_forms calls scope captures suits supplied.1 supplied.2 s hs)
      fun captured t ht _ hcaptured => ?_
    refine Run.draw_forms ht ((Gives.liftSupply (Nat.le_refl _)).mono fun f u _ drawn => ?_)
    have item := hc.toItem hcaptured.1 (fun q mem => (hcaptured.2 q mem).1)
      (fun q mem => (hcaptured.2 q mem).2) t.supply
    rw [← congrArg Prod.fst drawn] at item
    exact item

theorem evaluateSupplies_forms (calls : CallerForms w r call) (scope : Scope) :
    (es : List (VarId × Expr)) → {p : Place} →
    g.Suits p → (∀ x ∈ es, x.1 ∈ scope.layout.map Prod.fst) → (∀ x ∈ es, x.2.Formed w p) →
    (s : RunState) → s.Formed w g →
    (runContract w g).Keeps r s (evaluateSupplies call scope es) fun vs _ =>
      vs.map (·.1.id) = es.map Prod.fst ∧
        ∀ q ∈ vs, (q.1.id, q.1.slot) ∈ scope.layout ∧ q.2.Formed w
  | [], _, _, _, _, _, hs => Keeps.pure hs ⟨rfl, by simp⟩
  | (id, e) :: es, _, suits, known, all, s, hs => by
    refine Keeps.bind (Expr.evaluate_forms calls e suits (all (id, e) (by simp)) s hs) fun v t ht _ hv => ?_
    refine Keeps.bind (evaluateSupplies_forms calls scope es suits (fun x mem => known x (by simp [mem]))
      (fun x mem => all x (by simp [mem])) t ht) fun vs u hu _ hvs => Keeps.pure hu ?_
    obtain ⟨x, found⟩ := Option.isSome_iff_exists.1
      (Scope.isSome_find?_iff.2 (known (id, e) (by simp)))
    obtain ⟨same, mem⟩ := Scope.mem_layout_of_find? found
    rw [found]
    refine ⟨by simp [hvs.1, same], List.forall_mem_cons.2 ⟨⟨?_, hv⟩, hvs.2⟩⟩
    exact same.symm ▸ mem
end

end

namespace Flow

def Formed (w : World) : Flow → Prop
  | .done v => v.Formed w
  | .call next => next.Formed w

end Flow

namespace Registry

/-- What may be called is compiled, and all that is compiled is well formed. -/
structure Formed (w : World) (r : Registry) : Prop where
  functions : ∀ id e, r.find? id = some e → ∃ supply, e.Formed w supply
  called : ∀ id n, w.calls id n → ∃ e, r.find? id = some e ∧ e.arity = n ∧ e.stage = .compiled

end Registry

section

variable {call : Caller} (calls : CallerForms w r call)

include calls

theorem Expr.evaluateTail_forms : (e : Expr) → {p : Place} → g.Suits p → e.Formed w p →
    (s : RunState) → s.Formed w g →
    (runContract w g).Keeps r s (e.evaluateTail call) fun flow _ => flow.Formed w
  | .branch cond yes no span, _, suits, .branch hcond hyes hno, s, hs => by
    refine Keeps.bind (Expr.evaluate_forms calls cond suits hcond s hs) fun v t ht _ _ => ?_
    refine Keeps.bind (Keeps.ofExcept ht fun e failed =>
      w.common e (QueryError.ebv_isResolution failed)) fun b u hu _ _ => ?_
    split
    · exact Expr.evaluateTail_forms yes suits hyes u hu
    · exact Expr.evaluateTail_forms no suits hno u hu
  | .letIn _ slot bound body, _, suits, .letIn mem spared hbound hbody, s, hs => by
    refine Keeps.bind (Expr.evaluate_forms calls bound suits hbound s hs) fun v t ht _ hv => ?_
    refine Keeps.bind (Run.set_forms ht (suits.inside _ mem) (suits.free slot spared) hv)
      fun _ u hu _ _ => ?_
    exact Expr.evaluateTail_forms body (suits.opened _) hbody u hu
  | .call site args, _, suits, .call called hargs, s, hs => by
    unfold evaluateTail
    split
    · refine Keeps.bind (evaluateList_forms calls args suits hargs s hs) fun vs t ht _ hvs => ?_
      exact Keeps.pure ht ⟨hvs.1 ▸ called, hvs.2⟩
    · refine Keeps.bind (Expr.evaluate_forms calls _ suits (.call called hargs) s hs)
        fun v t ht _ hv => Keeps.pure ht hv
  | .dynamicCall site callee args, _, suits, .dynamicCall hcallee hargs, s, hs => by
    unfold evaluateTail
    split
    · refine Keeps.bind (Expr.evaluate_forms calls callee suits hcallee s hs) fun v t ht _ hv => ?_
      refine Keeps.bind (DynamicSite.callable_forms ht hv _) fun f u hu _ hf => ?_
      refine Keeps.bind (evaluateList_forms calls args suits hargs u hu) fun vs x hx _ hvs => ?_
      exact Keeps.pure hx ⟨hf, hvs.2⟩
    · refine Keeps.bind (Expr.evaluate_forms calls _ suits (.dynamicCall hcallee hargs) s hs)
        fun v t ht _ hv => Keeps.pure ht hv
  | .value _, _, suits, he, s, hs | .var _, _, suits, he, s, hs | .focus _, _, suits, he, s, hs
  | .error _, _, suits, he, s, hs | .arith _ _ _ _, _, suits, he, s, hs
  | .compare _ _ _ _, _, suits, he, s, hs | .seq _, _, suits, he, s, hs
  | .treat _ _ _, _, suits, he, s, hs | .builtin _ _ _, _, suits, he, s, hs
  | .closure _, _, suits, he, s, hs | .literal _ _, _, suits, he, s, hs
  | .partialApply _ _ _, _, suits, he, s, hs => by
    exact Keeps.bind (Expr.evaluate_forms calls _ suits he s hs) fun v t ht _ hv => Keeps.pure ht hv

end

namespace Run

theorem bodyOf_forms (functions : r.registry.Formed w) (hs : s.Formed w g) {target : FuncId} {n : Nat}
    (called : w.calls target n) (span : Span) :
    (runContract w g).Keeps r s (bodyOf target span) fun p _ =>
      r.registry.find? target = some p.1 ∧ p.1.body = some p.2 := by
  refine Keeps.bind (Keeps.read hs) fun _ t ht _ same => ?_
  obtain ⟨rfl, -⟩ := same
  obtain ⟨e, found, -, compiled⟩ := functions.called target n called
  obtain ⟨supply, he⟩ := functions.functions target e found
  obtain ⟨body, present⟩ := Option.isSome_iff_exists.1 (he.present (.inr compiled))
  rw [found]
  dsimp only
  rw [present]
  exact Keeps.pure ht ⟨rfl, present⟩

theorem bindParams_forms (function : String) (span : Span) :
    ∀ (vs : List Variable) (args : List Value) (s : RunState), s.Formed w g →
      (∀ v ∈ vs, v.slot < g.size ∧ ¬g.frozen (g.base + v.slot)) → (∀ a ∈ args, a.Formed w) →
      (runContract w g).Keeps r s (bindParams function span vs args) fun _ _ => True
  | [], _, s, hs, _, _ => Keeps.pure hs trivial
  | _ :: _, [], s, hs, _, _ => Keeps.pure hs trivial
  | v :: vs, arg :: args, s, hs, free, hargs => by
    have bound : ∀ t : RunState, t.Formed w g → (runContract w g).Keeps r t
        (do set v.slot arg; bindParams function span vs args) fun _ _ => True := fun t ht => by
      refine Keeps.bind (set_forms ht (free v (by simp)).1 (free v (by simp)).2 (hargs arg (by simp)))
        fun _ u hu _ _ => ?_
      exact bindParams_forms function span vs args u hu (fun x mem => free x (by simp [mem]))
        fun x mem => hargs x (by simp [mem])
    unfold bindParams
    split
    · dsimp only
      split
      · exact Keeps.refuse hs (w.common _ rfl)
      · exact bound s hs
    · exact bound s hs

theorem free_above (s : RunState) (size slot : Nat) :
    ¬(Ground.above s size).frozen ((Ground.above s size).base + slot) :=
  Nat.not_lt.2 (Nat.le_add_right s.stack.size slot)

section

variable {call : Caller} (calls : CallerForms w r call)

include calls

theorem inBody_forms {p : Place} {body : Expr} {size : Nat} (hs : s.Formed w g)
    (inside : ∀ x ∈ p.scope.layout, x.2 < size) (hbody : body.Formed w p) {enter : Run Unit}
    (entered : ∀ t : RunState, t.Formed w (.above s size) →
      (runContract w (.above s size)).Keeps r t enter fun _ _ => True) :
    (runContract w g).Keeps r s (inFrame size do enter; withoutFocus (body.evaluateTail call))
      fun flow _ => flow.Formed w := by
  refine inFrame_forms hs fun t ht => Keeps.bind (entered t ht) fun _ u hu _ _ => ?_
  refine withoutFocus_forms hu fun v hv => ?_
  let spared : Nat → Prop := fun i => ∃ slot, p.spared slot ∧ i = s.stack.size + slot
  refine Keeps.freezing hv spared fun hv => ?_
  refine Expr.evaluateTail_forms calls body ⟨inside, fun slot free frozen => ?_⟩ hbody v hv
  rcases frozen with below | ⟨other, spared, same⟩
  · exact free_above s size slot below
  · exact free (Nat.add_left_cancel same ▸ spared)

theorem stepItem_forms {f : FuncItem} (hs : s.Formed w g) (hf : f.Formed w) {args : List Value}
    (hargs : ∀ a ∈ args, a.Formed w) (span : Span) :
    (runContract w g).Keeps r s (stepItem call f args span) fun flow _ => flow.Formed w := by
  unfold stepItem
  dsimp only
  split
  · exact Keeps.refuse hs (w.common _ rfl)
  · cases hf with
    | builtin code =>
      rw [code]
      exact Keeps.bind (Builtin.apply_forms calls _ hs hargs span) fun v t ht _ hv => Keeps.pure ht hv
    | @closure _ params captured body scope supply code _ serves placed kept values hbody =>
      rw [code]
      have inside := serves.sound.laid.bounded
      have entered : ∀ t : RunState, t.Formed w (.above s scope.frameSize) →
          (runContract w (.above s scope.frameSize)).Keeps r t
            (do captured.forM fun q => set q.1.slot q.2; bindParams f.text span params args)
            fun _ _ => True := by
        intro t ht
        refine Keeps.bind (Keeps.forM (fun q u hu among => ?_) captured t ht fun q mem => mem)
          fun _ u hu _ _ => ?_
        · exact set_forms hu (inside _ (kept q among)) (free_above s _ _) (values q among)
        · refine bindParams_forms f.text span params args u hu (fun v mem => ?_) hargs
          exact ⟨inside _ (placed v mem), free_above s _ _⟩
      have made := inBody_forms calls hs inside hbody entered
      simpa only [bind_assoc] using made

theorem step_forms (functions : r.registry.Formed w) {next : PendingCall} (hs : s.Formed w g)
    (hnext : next.Formed w) :
    (runContract w g).Keeps r s (step call next) fun flow _ => flow.Formed w := by
  cases next with
  | registered target args span =>
    refine Keeps.bind (bodyOf_forms functions hs hnext.1 span) fun p t ht _ found => ?_
    obtain ⟨e, body⟩ := p
    obtain ⟨found, present⟩ := found
    obtain ⟨supply, he⟩ := functions.functions target e found
    have inside := (he.scope body present).sound.laid.bounded
    refine inBody_forms calls ht inside (he.body body present) fun u hu => ?_
    refine bindParams_forms _ span _ args u hu (fun v mem => ?_) hnext.2
    obtain ⟨id, -, known⟩ := List.mem_filterMap.1 mem
    have here := Scope.mem_layout_of_find? known
    exact ⟨inside _ here.2, free_above t _ _⟩
  | item f args span | callback f args span => exact stepItem_forms calls hs hnext.1 hnext.2 span

end

theorem loop_forms (functions : r.registry.Formed w) (budget : Nat) (g : Ground) (next : PendingCall)
    (s : RunState) (hs : s.Formed w g) (hnext : next.Formed w) :
    (runContract w g).Keeps r s (loop budget next) fun v _ => v.Formed w := by
  induction budget generalizing g next s with
  | zero => exact Keeps.of_fault rfl trivial
  | succ budget ih =>
    have calls : CallerForms w r fun inner => nested (loop budget inner) :=
      fun g inner t ht hinner => nested_forms ht fun u hu => ih g inner u hu hinner
    refine Keeps.bind (checkInterrupt_forms hs) fun _ t ht _ _ => ?_
    refine Keeps.bind (step_forms calls functions ht hnext) fun flow u hu _ hflow => ?_
    cases flow with
    | done v => exact Keeps.pure hu hflow
    | call next => exact ih g next u hu hflow

theorem call_forms (functions : r.registry.Formed w) (budget : Nat) :
    CallerForms w r (call budget) :=
  fun g next _ hs hnext => nested_forms hs fun t ht => loop_forms functions budget g next t ht hnext

end Run

namespace Query

variable {q : Query} {focus : Prop}

theorem Compiled.registry (compiled : q.Compiled w focus) : q.registry.Formed w :=
  ⟨fun id e found => ⟨q.supply, compiled.functions id e found⟩, compiled.called⟩

theorem Compiled.run (compiled : q.Compiled w focus) (steps : Nat) (host : Host)
    {value : Option Value} (hvalue : ∀ v, value = some v → v.Formed w) :
    match ((q.runMain steps).outcome q.setting
      (.start q.supply q.options host value)).1 with
    | .error f => w.faults f
    | .ok (.error e) => w.error e
    | .ok (.ok answer) => answer.value.Formed w := by
  let ground : Ground := ⟨0, 0, fun _ => False, fun _ => none⟩
  have start : (RunState.start q.supply q.options host value).Formed w ground :=
    ⟨rfl, Nat.le_refl _, fun v mem => by simp [RunState.start] at mem, hvalue, fun i => False.elim⟩
  have functions : q.setting.registry.Formed w := compiled.registry
  have kept : (runContract w ground).Keeps q.setting
      (.start q.supply q.options host value) (q.runMain steps) fun answer _ => answer.value.Formed w := by
    have inner : (runContract w ground).Keeps q.setting
        (.start q.supply q.options host value)
        (Run.inFrame q.scope.frameSize (Run.evaluate steps q.main)) fun v _ => v.Formed w := by
      refine Run.inFrame_forms start fun t ht => ?_
      refine Expr.evaluate_forms (Run.call_forms functions steps) q.main ⟨?_, ?_⟩ compiled.main t ht
      · exact compiled.scope.laid.bounded
      · exact fun slot _ => Run.free_above _ _ slot
    refine Keeps.bind inner fun v t ht _ hv => Keeps.skip ?_ fun _ u hu _ => Keeps.pure hu hv
    exact Keeps.of_eq (t := { t with updates := [] }) rfl
      ⟨ht.base, ht.fits, ht.stack, ht.focus, ht.frozen⟩ trivial trivial
  unfold Keeps at kept
  unfold Run.outcome
  generalize q.runMain steps q.setting (.start q.supply q.options host value) = outcome at kept
  obtain ⟨f | e | answer, t⟩ := outcome
  · exact kept.2
  · exact kept.2.2
  · exact kept.2.2

end Query

end QueryFunctions
