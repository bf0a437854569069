import QueryFunctions.Proofs.Termination.Chain
import QueryFunctions.Proofs.Termination.Simplify

/-! The simplifier settles on tame code, by induction on the weight of the code. It is run again on code
that it makes itself, and all of that weighs less than what it is made of: a let or a captured constant is
gone, or a dynamic call has given way to code that comes from one closure more, or that calls a smaller
function. No closure is expanded within its own expansion, so the watch on chains of expansions makes no
difference. -/
namespace QueryFunctions

open Contract

variable {ι : Type} {d : Terms} {r : Registry} {o : Options} {outer inner : List Origin}
  {limit : Weight} {fresh n : Nat} {s : CompileState} {simplify : ι → Nat → Expr → Compile Expr}

section weights

variable {origins : Finset Origin} {site : DynamicSite} {origin : Origin} {body body' : Expr}

theorem Expr.Spliced.below (spliced : body.Spliced (site.inlinedFrom ++ [origin]) body')
    (here : origin ∈ origins) (new : origin ∉ site.inlinedFrom) (item? : Option FuncItem) :
    ∀ y ∈ body'.weight origins, y < callRank origins site.inlinedFrom item? := by
  intro y mem
  have bottom := bottomRank_lt_callRank origins site.inlinedFrom item?
  obtain ⟨k, among, hy⟩ := mem_weight_iff.1 mem
  rcases spliced k among with ⟨k₀, -, rfl⟩ | ⟨id, rfl⟩
  · cases k₀ with
    | letIn => exact Multiset.mem_singleton.1 hy ▸ bottom
    | closure => exact Multiset.eq_of_mem_replicate hy ▸ bottom
    | dynamicCall inlinedFrom item?' =>
      rw [Multiset.mem_singleton.1 hy]
      have told := (subset_foldl_origins (site.inlinedFrom ++ [origin]) inlinedFrom).2
      exact callRank_lt here new (fun x mem => told (List.mem_append_left _ mem))
        (told (by simp)) item? item?'
    | _ => exact absurd hy (Multiset.notMem_zero y)
  · exact absurd hy (Multiset.notMem_zero y)

theorem Expr.Spliced.below_of_forwards (spliced : body.Spliced (site.inlinedFrom ++ [origin]) body')
    (forwards : body.Forwards) {item : FuncItem} {params : List Variable}
    {captured : List (Variable × Value)} {scope : Scope}
    (code : item.code = .closure params captured body scope) :
    ∀ y ∈ body'.weight origins, y < callRank origins site.inlinedFrom (some item) := by
  intro y mem
  obtain ⟨k, among, hy⟩ := mem_weight_iff.1 mem
  obtain ⟨inner, target, args, rfl, atoms⟩ := forwards
  have smaller : sizeOf target < sizeOf item := by
    cases item
    simp only at code
    subst code
    simp
    omega
  rcases spliced k among with ⟨k₀, old, rfl⟩ | ⟨id, rfl⟩
  · rcases mem_kinds_iff.1 old with rfl | ⟨p, part, hp⟩
    · rw [Multiset.mem_singleton.1 hy]
      have told := (subset_foldl_origins (site.inlinedFrom ++ [origin]) inner.inlinedFrom).2
      exact callRank_lt_of_sizeOf (fun x mem => told (List.mem_append_left _ mem)) smaller
    · have atom : p.isAtom = true := (List.mem_cons.1 part).elim (fun same => same ▸ rfl) (atoms p)
      cases p with
      | value | var =>
        rw [List.mem_singleton.1 hp] at hy
        exact absurd hy (Multiset.notMem_zero y)
      | _ => cases atom
  · exact absurd hy (Multiset.notMem_zero y)

theorem bindingsWeight_eq (origins : Finset Origin) (bindings : List (VarId × Expr)) :
    bindingsWeight origins bindings = .replicate bindings.length bottomRank +
      (bindings.map fun x => x.2.weight origins).sum := by
  unfold bindingsWeight
  induction bindings with
  | nil => rfl
  | cons x bindings ih =>
    rw [List.map_cons, List.sum_cons, ih, List.length_cons, Multiset.replicate_succ,
      ← Multiset.singleton_add, List.map_cons, List.sum_cons]
    exact add_add_add_comm ..

theorem sum_weight_zip_le (params : List VarId) (args : List Expr) :
    ((params.zip args).map fun x => x.2.weight origins).sum ≤ (args.map (Expr.weight origins)).sum := by
  induction params generalizing args with
  | nil => simp
  | cons id params ih =>
    cases args with
    | nil => simp
    | cons e args =>
      simp only [List.zip_cons_cons, List.map_cons, List.sum_cons]
      exact add_le_add (le_refl _) (ih args)

end weights

theorem Expr.weight_dynamicCall (origins : Finset Origin) (site : DynamicSite) (callee : Expr)
    (args : List Expr) : (Expr.dynamicCall site callee args).weight origins =
      {callRank origins site.inlinedFrom callee.item?} +
        (callee.weight origins + (args.map (weight origins)).sum) := by
  rw [weight_eq]
  rfl

namespace Compile

/-- The body of a function in place of a dynamic call, where all that comes of it ranks below the call. -/
theorem expandDynamic_settles {site : DynamicSite} {callee : Expr} {args : List Expr} {origin : Origin}
    (hs : s.registry = r) (he : (Expr.dynamicCall site callee args).Tame d outer s.supply.nextVar)
    (simplifies : SimplifierSettles d r o (outer ++ [origin])
      ((Expr.dynamicCall site callee args).weight d.origins) simplify)
    (scope : Scope) {body : Expr} (hbody : body.Tame d [] s.supply.nextVar)
    {bindings : List (VarId × Expr)} (values : ∀ x ∈ bindings, x.2.Tame d outer s.supply.nextVar)
    (bound : (bindings.map fun x => x.2.weight d.origins).sum ≤
      callee.weight d.origins + (args.map (Expr.weight d.origins)).sum)
    (below : ∀ body', body.Spliced (site.inlinedFrom ++ [origin]) body' →
      ∀ y ∈ body'.weight d.origins, y < callRank d.origins site.inlinedFrom callee.item?)
    (span : Span) : (simplifyContract r).Settles o s (fun i n => do
      let e ← expand (simplify i n) scope body bindings (site.inlinedFrom ++ [origin]) span
      return keepTail site.tail e) fun e t =>
        (Expr.dynamicCall site callee args).Lightens d outer t.supply.nextVar e := by
  have from_ : outer ⊆ site.inlinedFrom := (Expr.tame_iff.1 he).1.fits
  have less : ∀ body', body.Spliced (site.inlinedFrom ++ [origin]) body' →
      (bindingsWeight d.origins bindings + body'.weight d.origins).IsDershowitzMannaLT
        ((Expr.dynamicCall site callee args).weight d.origins) := by
    intro body' spliced
    rw [bindingsWeight_eq, Expr.weight_dynamicCall, add_right_comm]
    refine Weight.replaced_lt bound fun y mem => ?_
    rcases Multiset.mem_add.1 mem with bottom | mem
    · exact Multiset.eq_of_mem_replicate bottom ▸ bottomRank_lt_callRank _ _ _
    · exact below body' spliced y mem
  refine Settles.bind (expand_settles hs scope hbody values (List.subset_append_left _ _)
    (List.append_subset.2 ⟨fun x mem => List.mem_append_left _ (from_ mem), by simp⟩) span
    fun body' spliced => ⟨_, simplifies, less body' spliced⟩) fun e t ht _ made => Settles.pure ht ?_
  obtain ⟨tame, body', spliced, lighter⟩ := made
  have lightens : (Expr.dynamicCall site callee args).Lightens d outer t.supply.nextVar e :=
    ⟨tame, lighter.trans (Weight.lighter_iff.2 (.inr (less body' spliced))), nofun⟩
  exact lightens.keepTail rfl site.tail

theorem expandClosure_settles {site : DynamicSite} {callee : Expr} {c : Closure} {args : List Expr}
    (hs : s.registry = r) (known : callee.kinds = (Expr.closure c).kinds)
    (he : (Expr.dynamicCall site callee args).Tame d outer s.supply.nextVar)
    (new : c.origin ∉ site.inlinedFrom) (simplifies : SimplifierSettles d r o (outer ++ [c.origin])
      ((Expr.dynamicCall site callee args).weight d.origins) simplify) :
    (simplifyContract r).Settles o s (fun i n => expandClosure (simplify i n) site c args) fun e t =>
      (Expr.dynamicCall site callee args).Lightens d outer t.supply.nextVar e := by
  have hc : (Expr.closure c).Tame d outer s.supply.nextVar := fun k mem =>
    he.part (p := callee) (by simp [Expr.parts]) k (known ▸ mem)
  have origin : c.origin ∈ d.origins := (Expr.tame_iff.1 hc).1.fits
  have body : c.body.Tame d [] s.supply.nextVar :=
    (hc.part (by simp [Expr.parts])).mono (.refl d) (List.nil_subset _) (Nat.le_refl _)
  refine expandDynamic_settles hs he simplifies c.scope body (fun x mem => ?_) ?_
    (fun body' spliced => spliced.below origin new _) c.span
  · rcases List.mem_append.1 mem with arg | capture
    · exact he.part (List.mem_cons_of_mem _ (List.of_mem_zip arg).2)
    · exact hc.part (List.mem_append_left _ (List.mem_map_of_mem capture))
  · rw [List.map_append, List.sum_append, add_comm]
    refine add_le_add ?_ (sum_weight_zip_le _ _)
    rw [Expr.weight_of_kinds_eq known, Closure.weight_eq]
    exact le_trans (Multiset.le_add_right _ _) (Multiset.le_add_left _ _)

theorem expandItem_settles {site : DynamicSite} {item : FuncItem} {args : List Expr}
    {params : List Variable} {captured : List (Variable × Value)} {body : Expr} {scope : Scope}
    (hs : s.registry = r) (code : item.code = .closure params captured body scope)
    (he : (Expr.dynamicCall site (.value (.func item)) args).Tame d outer s.supply.nextVar)
    (new : item.origin ∉ site.inlinedFrom) (simplifies : SimplifierSettles d r o (outer ++ [item.origin])
      ((Expr.dynamicCall site (.value (.func item)) args).weight d.origins) simplify) :
    (simplifyContract r).Settles o s (fun i n => do
      let e ← expand (simplify i n) scope body ((params.map (·.id)).zip args ++
        captured.map fun (v, value) => (v.id, .value value)) (site.inlinedFrom ++ [item.origin]) site.span
      return keepTail site.tail e) fun e t =>
        (Expr.dynamicCall site (.value (.func item)) args).Lightens d outer t.supply.nextVar e := by
  have hitem : item.Tame d s.supply.nextVar :=
    Expr.tame_value_iff.1 (he.part (by simp [Expr.parts])) item .item
  obtain ⟨hbody, made, values⟩ := hitem.body code
  refine expandDynamic_settles hs he simplifies scope hbody (fun x mem => ?_) ?_
    (fun body' spliced => ?_) site.span
  · rcases List.mem_append.1 mem with arg | capture
    · exact he.part (List.mem_cons_of_mem _ (List.of_mem_zip arg).2)
    · obtain ⟨q, among, rfl⟩ := List.mem_map.1 capture
      exact Expr.tame_value_iff.2 (values q among)
  · have none : ((captured.map fun (v, value) => (v.id, Expr.value value)).map
        fun x => x.2.weight d.origins).sum = 0 := by
      refine List.sum_eq_zero fun w mem => ?_
      simp only [List.map_map, List.mem_map] at mem
      obtain ⟨q, -, rfl⟩ := mem
      exact Expr.weight_eq d.origins _
    rw [List.map_append, List.sum_append, none, add_zero]
    exact le_trans (sum_weight_zip_le _ _) (Multiset.le_add_left _ _)
  · rcases made with origin | forwards
    · exact spliced.below origin new _
    · exact spliced.below_of_forwards forwards code

theorem callBuiltin_settles {site : DynamicSite} {callee : Expr} {args : List Expr} (f : Builtin)
    (hs : s.registry = r) (he : (Expr.dynamicCall site callee args).Tame d outer s.supply.nextVar)
    (simplifies : SimplifierSettles d r o outer ((Expr.dynamicCall site callee args).weight d.origins)
      simplify) :
    (simplifyContract r).Settles o s (fun i n => simplify i n (.builtin f args site.span)) fun e t =>
      (Expr.dynamicCall site callee args).Lightens d outer t.supply.nextVar e := by
  have tame : (Expr.builtin f args site.span).Tame d outer s.supply.nextVar :=
    Expr.tame_iff.2 ⟨⟨trivial, by rintro _ ⟨⟩⟩, fun e mem => he.part (List.mem_cons_of_mem _ mem)⟩
  have less : ((Expr.builtin f args site.span).weight d.origins).IsDershowitzMannaLT
      ((Expr.dynamicCall site callee args).weight d.origins) := by
    rw [Expr.weight_dynamicCall, Expr.weight_eq]
    exact Weight.replaced_lt (Multiset.le_add_left _ _) (by simp [Expr.kind, Kind.charge])
  refine (simplifies.layered outer 0 _ s (List.Subset.refl _) (Nat.zero_le _) hs (.code tame)
    less).mono fun e t _ _ h => ⟨h.1.tame (List.Subset.refl _) (Nat.zero_le _), ?_, by rintro _ ⟨⟩⟩
  exact h.2.trans (Weight.lighter_iff.2 (.inr less))

theorem callClosure_settles {site : DynamicSite} {callee : Expr} {c : Closure} {args : List Expr}
    (hs : s.registry = r) (known : callee.kinds = (Expr.closure c).kinds)
    (he : (Expr.dynamicCall site callee args).Tame d outer s.supply.nextVar)
    (expanded : (Expr.dynamicCall site callee args).expanded? o =
      if c.inlinable o && !site.inlinedFrom.contains c.origin then some c.origin else none)
    (simplifies : SimplifierSettles d r o
      (outer ++ ((Expr.dynamicCall site callee args).expanded? o).toList)
      ((Expr.dynamicCall site callee args).weight d.origins) simplify) :
    (simplifyContract r).Settles o s (fun i n =>
      if c.inlinable o && !site.inlinedFrom.contains c.origin then
        expandClosure (simplify i n) site c args
      else return .dynamicCall site callee args) fun e t =>
        (Expr.dynamicCall site callee args).Lightens d outer t.supply.nextVar e := by
  rw [expanded] at simplifies
  cases inlined : c.inlinable o && !site.inlinedFrom.contains c.origin with
  | true =>
    rw [inlined] at simplifies
    have new : c.origin ∉ site.inlinedFrom := by simp at inlined; exact inlined.2
    simp only [if_true]
    exact expandClosure_settles hs known he new simplifies
  | false =>
    simp only [Bool.false_eq_true, if_false]
    exact Settles.pure hs (.refl he)

theorem simplifyDynamicCall_settles {site : DynamicSite} {callee : Expr} {args : List Expr}
    (hs : s.registry = r) (he : (Expr.dynamicCall site callee args).Tame d outer s.supply.nextVar)
    (simplifies : SimplifierSettles d r o
      (outer ++ ((Expr.dynamicCall site callee args).expanded? o).toList)
      ((Expr.dynamicCall site callee args).weight d.origins) simplify) :
    (simplifyContract r).Settles o s (fun i n => simplifyDynamicCall (simplify i n) site callee args)
      fun e t => (Expr.dynamicCall site callee args).Lightens d outer t.supply.nextVar e := by
  refine Settles.keeps_bind (checkCallee_settles hs site callee args.length) fun _ t ht _ same => ?_
  subst same
  refine Settles.keeps_bind (Keeps.read ht) fun o t ht _ same => ?_
  obtain ⟨rfl, rfl⟩ := same
  split
  · rename_i item
    split
    · rename_i b code
      simp only [Expr.expanded?, code, Option.toList_none, List.append_nil] at simplifies
      exact callBuiltin_settles b ht he simplifies
    · rename_i params captured body scope code
      simp only [Expr.expanded?, code] at simplifies
      cases inlined : inlinesItem site item body o with
      | true =>
        rw [inlined] at simplifies
        have new : item.origin ∉ site.inlinedFrom := by
          simp [inlinesItem] at inlined
          exact inlined.1.1.2
        simp only [if_true]
        exact expandItem_settles ht code he new simplifies
      | false =>
        simp only [Bool.false_eq_true, if_false]
        exact Settles.pure ht (.refl he)
  · exact callClosure_settles ht rfl he rfl simplifies
  · rename_i literal c
    have known : (Expr.literal literal c).kinds = (Expr.closure c).kinds := by
      rw [Expr.kinds_eq, Expr.kinds_eq (.closure c)]
      rfl
    exact callClosure_settles ht known he rfl simplifies
  · exact Settles.pure ht (.refl he)

end Compile

/-- Calls of closed functions are not expanded. -/
def Terms.Upheld (d : Terms) (r : Registry) (o : Options) : Prop :=
  ∀ id, d.closed id → ∃ entry, r.find? id = some entry ∧ entry.inlinable o = false

namespace Expr

variable {e : Expr}

theorem Tame.expanded_new {n : Nat} (he : e.Tame d outer n) {origin : Origin}
    (expanded : e.expanded? o = some origin) : origin ∉ outer := by
  obtain ⟨site, callee, args, rfl, new⟩ := eq_dynamicCall_of_expanded? expanded
  exact fun mem => new ((tame_iff.1 he).1.fits mem)

theorem letIn_settles {id : VarId} {slot : Nat} {bound body : Expr}
    {post : Expr → CompileState → Prop} (hs : s.registry = r)
    (substituted : bound.isAtom = true → (simplifyContract r).Settles o s
      (fun i n => body.substitute (simplify i n) ⟨id, bound⟩) post)
    (dropped : post body s) (kept : post (.letIn id slot bound body) s) :
    (simplifyContract r).Settles o s
      (fun i n => (Expr.letIn id slot bound body).simplifyWith (simplify i n)) post := by
  simp only [simplifyWith]
  cases atom : bound.isAtom with
  | true => exact substituted atom
  | false =>
    simp only [Bool.false_eq_true, if_false]
    split
    · exact Settles.pure hs dropped
    · exact Settles.pure hs kept

theorem body_lt {id : VarId} {slot : Nat} {bound body : Expr} (origins : Finset Origin) :
    (body.weight origins).IsDershowitzMannaLT ((Expr.letIn id slot bound body).weight origins) := by
  rw [weight_eq origins (.letIn id slot bound body), ← zero_add (body.weight origins)]
  refine Weight.replaced_lt ?_ (by simp)
  simp [parts]

theorem simplifyWith_settles (upheld : d.Upheld r o) (hs : s.registry = r)
    (he : e.Tame d outer s.supply.nextVar) (simplifies : SimplifierSettles d r o
      (outer ++ (e.expanded? o).toList) (e.weight d.origins) simplify) :
    (simplifyContract r).Settles o s (fun i n => e.simplifyWith (simplify i n)) fun e' t =>
      e.Lightens d outer t.supply.nextVar e' := by
  cases e with
  | dynamicCall site callee args => exact Compile.simplifyDynamicCall_settles hs he simplifies
  | value | focus | error | var => exact Settles.pure hs (.refl he)
  | branch => exact Settles.pure hs (lightens_foldBranch he)
  | arith => exact Settles.pure hs (lightens_foldArith he)
  | compare => exact Settles.pure hs (lightens_foldCompare he)
  | seq => exact Settles.pure hs (lightens_foldSeq he)
  | treat => exact Settles.pure hs (lightens_foldTreat he)
  | builtin => exact Settles.pure hs (lightens_foldBuiltin he)
  | partialApply => exact Settles.of_keeps (Compile.simplifyPartial_settles hs he)
  | call site args =>
    obtain ⟨entry, found, closed⟩ := upheld _ (tame_iff.1 he).1.fits
    exact Compile.simplifyCall_settles hs found closed he
  | letIn id slot bound body =>
    simp only [expanded?, Option.toList_none, List.append_nil] at simplifies
    have part : body ∈ (Expr.letIn id slot bound body).parts := by simp [parts]
    refine letIn_settles hs (fun atom => ?_) (.part he part rfl) (.refl he)
    refine (substitute_settles simplifies atom body s hs (he.part (by simp [parts]))
      ⟨he.part part, body_lt _⟩).mono fun e' t _ _ h => ⟨h.tame, h.lighter.trans ?_, nofun⟩
    exact .of_le (weight_le_of_mem_parts part)
  | closure c =>
    simp only [expanded?, Option.toList_none, List.append_nil] at simplifies
    exact c.simplifyWith_settles hs he simplifies
  | literal site c =>
    simp only [expanded?, Option.toList_none, List.append_nil] at simplifies
    have kinds : (Expr.literal site c).kinds = (Expr.closure c).kinds := by
      rw [kinds_eq, kinds_eq (.closure c)]
      rfl
    have hc : (Expr.closure c).Tame d outer s.supply.nextVar := fun k mem => he k (kinds ▸ mem)
    rw [weight_of_kinds_eq kinds] at simplifies
    refine Settles.bind (c.simplifyWith_settles hs hc simplifies) fun e' t ht _ h => Settles.pure ht ?_
    refine ⟨?_, ?_, nofun⟩
    · unfold Tame
      rw [kinds_rewrapLiteral]
      exact h.tame
    · rw [weight_of_kinds_eq (kinds_rewrapLiteral site e'), weight_of_kinds_eq kinds]
      exact h.lighter

/-- The simplifier with a watch on chains of nested expansions, within such a chain. -/
def watched (chain : List Origin) (alarm : Compile Expr → Compile Expr) (budget : Nat) (e : Expr) :
    Compile Expr := e.simplifyWatched alarm budget chain

theorem Tame.simplifyWatched_eq {n : Nat} (he : e.Tame d outer n) (alarm : Compile Expr → Compile Expr)
    (budget : Nat) : e.simplifyWatched alarm (budget + 1) outer o s =
      e.simplifyWith (watched (outer ++ (e.expanded? o).toList) alarm budget) o s := by
  cases expanded : e.expanded? o with
  | none =>
    rw [simplifyWatched_of_none expanded, Option.toList_none, List.append_nil]
    rfl
  | some origin =>
    have new : outer.contains origin = false := by simpa using he.expanded_new expanded
    rw [simplifyWatched_of_some expanded, new]
    rfl

theorem watched_simplifies (upheld : d.Upheld r o) (limit : Weight) :
    ∀ chain, SimplifierSettles d r o chain limit (watched chain) := by
  have descending : WellFounded fun M N : Weight => M.IsDershowitzMannaLT N :=
    Multiset.wellFounded_isDershowitzMannaLT
  induction limit using descending.induction with
  | _ limit ih =>
  intro chain
  have code : ∀ (e : Expr) (s : CompileState), s.registry = r → e.Tame d chain s.supply.nextVar →
      (e.weight d.origins).IsDershowitzMannaLT limit →
      (simplifyContract r).Settles o s (fun alarm n => watched chain alarm n e) fun e' t =>
        e.Lightens d chain t.supply.nextVar e' := fun e s hs he light =>
    (simplifyWith_settles upheld hs he (ih _ light _)).spend fun alarm n => he.simplifyWatched_eq alarm n
  refine ⟨fun outer fresh e s within le hs he light => ?_, fun e type span s hs => ?_⟩
  · cases he with
    | code he => exact (code e s hs he light).mono fun _ _ _ _ h => ⟨.code h.tame, h.lighter⟩
    | @letIn id slot bound body since hbound hbody =>
      have part : body ∈ (Expr.letIn id slot bound body).parts := by simp [parts]
      have lighter : (body.weight d.origins).Lighter ((Expr.letIn id slot bound body).weight d.origins) :=
        .of_le (weight_le_of_mem_parts part)
      have step : (simplifyContract r).Settles o s (fun alarm n =>
          (Expr.letIn id slot bound body).simplifyWith (watched chain alarm n)) fun e' t =>
            e'.Layered d outer chain fresh t.supply.nextVar ∧
              (e'.weight d.origins).Lighter ((Expr.letIn id slot bound body).weight d.origins) := by
        refine letIn_settles hs (fun atom => ?_) ⟨hbody, lighter⟩ ⟨.letIn since hbound hbody, .refl _⟩
        refine (Layered.substitute_settles (ih _ light chain) atom within since body s hs le
          ((hbound.later le).atom atom chain) hbody (body_lt _)).mono fun _ _ _ _ h => ?_
        exact ⟨h.1, h.2.trans lighter⟩
      exact step.spend fun alarm n => simplifyWatched_of_none rfl
  · have folded : (simplifyContract r).Settles o s
        (fun (_ : Compile Expr → Compile Expr) _ => pure (e.foldTreat type span))
        fun e' _ => e' = e.foldTreat type span := Settles.pure hs rfl
    exact folded.spend fun alarm n => simplifyWatched_of_none rfl

end Expr

end QueryFunctions
