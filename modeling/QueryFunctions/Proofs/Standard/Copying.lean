import QueryFunctions.Expr.Copy
import QueryFunctions.Proofs.Law.Supplied
import QueryFunctions.Proofs.Scope.Layout
import QueryFunctions.Proofs.Standard.Basic
import QueryFunctions.Expr.Item

/-! Copied code meets the standard wherever the variables that it is copied to may be bound, and a function
item if what it is made of does: the body of a closure with the values that it captures, or a function item
with some of its arguments. -/
namespace QueryFunctions

variable {d : Standard} {a b : Allowance}

namespace Renaming

theorem find?_insert (r : Renaming) (old : VarId) (new : Variable) (id : VarId) :
    (r.insert old new).find? id = if id = old then some new else r.find? id := by
  unfold insert find?
  rw [List.find?_cons]
  by_cases same : id = old
  · simp [same]
  · have apart : (old == id) = false := by simpa using fun eq : old = id => same eq.symm
    simp only [apart, if_neg same, List.find?_filter]
    congr 2
    funext p
    by_cases hp : p.1 = id
    · simp [hp, same]
    · simp [hp]

structure Fits (a b : Allowance) (r : Renaming) : Prop where
  updates : a.updates → b.updates
  draws : a.draws → b.draws
  renamed : ∀ {id v}, r.find? id = some v → b.slot v.slot ∧ b.binds v.id
  kept : ∀ {id slot}, r.find? id = none → a.slot slot → a.binds id → b.slot slot ∧ b.binds id
  flagged : b.flagged → a.flagged

end Renaming

namespace Scope

theorem copy_table (vars : List Variable) (r : Renaming) (copied : List Variable)
    (id : VarId) (known : vars.length = copied.length) :
    (∀ v, ((vars.zip copied).foldl (fun r (v, new) => r.insert v.id new) r).find? id = some v →
        (∃ w, (w, v) ∈ vars.zip copied ∧ w.id = id) ∨ r.find? id = some v) ∧
      ((∃ v ∈ vars, v.id = id) ∨ (r.find? id).isSome = true →
        (((vars.zip copied).foldl (fun r (v, new) => r.insert v.id new) r).find? id).isSome = true) := by
  induction vars generalizing r copied with
  | nil =>
    cases copied with
    | nil => simp
    | cons c cs => simp at known
  | cons v vs ih =>
    cases copied with
    | nil => simp at known
    | cons c cs =>
      have rest := ih (r.insert v.id c) cs (by simpa using known)
      simp only [List.zip_cons_cons, List.foldl_cons]
      refine ⟨fun w found => ?_, fun present => rest.2 ?_⟩
      · rcases rest.1 w found with ⟨old, later, same⟩ | now
        · exact .inl ⟨old, List.mem_cons_of_mem _ later, same⟩
        · rw [Renaming.find?_insert] at now
          split at now
          · rename_i same
            cases now
            exact .inl ⟨v, List.mem_cons_self, same.symm⟩
          · exact .inr now
      · rw [Renaming.find?_insert]
        rcases present with ⟨w, hw, rfl⟩ | known
        · rcases List.mem_cons.1 hw with rfl | hw
          · exact .inr (by simp)
          · exact .inl ⟨w, hw, rfl⟩
        · refine .inr ?_
          split
          · rfl
          · exact known

theorem copied_variables (vars : List Variable) (supply : Supply) :
    supply.nextVar ≤ ((vars.mapM fun v => return { v with id := ← Supply.freshVar } :
      StateM Supply (List Variable)).run supply).2.nextVar ∧
    ((vars.mapM fun v => return { v with id := ← Supply.freshVar } :
      StateM Supply (List Variable)).run supply).1.length = vars.length := by
  induction vars generalizing supply with
  | nil => exact ⟨Nat.le_refl _, rfl⟩
  | cons v vs ih =>
    rw [List.mapM_cons]
    obtain ⟨grows, length⟩ := ih { supply with nextVar := supply.nextVar + 1 }
    exact ⟨Nat.le_trans (Nat.le_succ _) grows, congrArg (· + 1) length⟩

theorem copy_fits (d : Standard) (flagged : b.flagged → a.flagged) (updating : Bool) (s : Scope) :
    Yields (liftSupply s.copy) fun p =>
      p.2.Fits (.ofClosure d a updating s) (.ofClosure d b updating p.1) := by
  refine Yields.liftSupply fun supply => ⟨(copied_variables s.vars supply).1, ?_⟩
  have table (id : VarId) := copy_table s.vars .empty _ id (copied_variables s.vars supply).2.symm
  refine ⟨id, id, fun {id v} found => ⟨trivial, fun _ => ?_⟩, fun {id _} absent _ binds => ?_,
    flagged⟩
  · rcases (table id).1 v found with ⟨w, copied, -⟩ | none
    · exact isSome_find?_of_mem (List.of_mem_zip copied).2
    · cases none
  · refine ⟨trivial, fun demanded => ?_⟩
    have present := (table id).2 (.inl (by simpa [find?] using binds demanded))
    exact absurd absent (Option.isSome_iff_ne_none.1 present)

end Scope

mutual
theorem Expr.copy_meets : {a b : Allowance} → {r : Renaming} → r.Fits a b → (e : Expr) →
    e.Meets d true a → Yields (e.copy r) (·.Meets d true b)
  | _, _, _, _, .value v => fun he => Yields.pure (by simpa only [Expr.Meets] using he)
  | _, _, _, _, .focus _ => fun _ => Yields.pure (by simp only [Expr.Meets])
  | _, _, _, _, .error _ => fun _ => Yields.pure (by simp only [Expr.Meets])
  | _, _, r, _, .var ref => fun _ => by
    unfold Expr.copy
    split
    · exact Yields.pure (by simp only [Expr.Meets])
    · exact Yields.pure (by simp only [Expr.Meets])
  | a, b, r, fits, .letIn id slot value body => by
    rw [Expr.Meets]
    rintro ⟨hs, hb, hvalue, hbody⟩
    have place : b.slot (((r.find? id).map fun v => (v.id, v.slot)).getD (id, slot)).2 ∧
        b.binds (((r.find? id).map fun v => (v.id, v.slot)).getD (id, slot)).1 := by
      cases found : r.find? id with
      | none => exact fits.kept found hs hb
      | some v => exact fits.renamed found
    refine Yields.bind (Expr.copy_meets fits value hvalue) fun value' hvalue' => ?_
    refine Yields.bind (Expr.copy_meets fits body hbody) fun body' hbody' => Yields.pure ?_
    rw [Expr.Meets]
    exact ⟨place.1, place.2, hvalue', hbody'⟩
  | _, _, _, fits, .branch cond yes no _ => by
    rw [Expr.Meets]
    rintro ⟨hcond, hyes, hno⟩
    refine Yields.bind (Expr.copy_meets fits cond hcond) fun cond' hcond' => ?_
    refine Yields.bind (Expr.copy_meets fits yes hyes) fun yes' hyes' => ?_
    refine Yields.bind (Expr.copy_meets fits no hno) fun no' hno' => Yields.pure ?_
    rw [Expr.Meets]
    exact ⟨hcond', hyes', hno'⟩
  | _, _, _, fits, .arith _ lhs rhs _ => by
    rw [Expr.Meets]
    rintro ⟨hl, hr⟩
    refine Yields.bind (Expr.copy_meets fits lhs hl) fun lhs' hl' => ?_
    refine Yields.bind (Expr.copy_meets fits rhs hr) fun rhs' hr' => Yields.pure ?_
    rw [Expr.Meets]
    exact ⟨hl', hr'⟩
  | _, _, _, fits, .compare _ lhs rhs _ => by
    rw [Expr.Meets]
    rintro ⟨hl, hr⟩
    refine Yields.bind (Expr.copy_meets fits lhs hl) fun lhs' hl' => ?_
    refine Yields.bind (Expr.copy_meets fits rhs hr) fun rhs' hr' => Yields.pure ?_
    rw [Expr.Meets]
    exact ⟨hl', hr'⟩
  | _, _, _, fits, .seq items => by
    rw [Expr.Meets]
    intro he
    refine Yields.bind (copyList_meets fits items he) fun items' hitems' => Yields.pure ?_
    rwa [Expr.Meets]
  | _, _, _, fits, .treat expr _ _ => by
    rw [Expr.Meets]
    intro he
    refine Yields.bind (Expr.copy_meets fits expr he) fun expr' hexpr' => Yields.pure ?_
    rwa [Expr.Meets]
  | _, _, _, fits, .builtin _ args _ => by
    rw [Expr.Meets]
    rintro ⟨hu, hd, hargs⟩
    refine Yields.bind (copyList_meets fits args hargs) fun args' hargs' => Yields.pure ?_
    rw [Expr.Meets]
    exact ⟨fun upd => fits.updates (hu upd), fun ndt => fits.draws (hd ndt), hargs'⟩
  | _, _, _, fits, .closure c => by
    rw [Expr.Meets]
    intro hc
    refine Yields.bind (Closure.copy_meets fits c hc) fun c' hc' => Yields.pure ?_
    rw [Expr.Meets, hc'.1]
    exact hc'.2.2
  | _, _, _, fits, .literal _ c => by
    rw [Expr.Meets, if_pos rfl]
    rintro ⟨mentioned, none, -, hc⟩
    refine Yields.bind (Closure.copy_meets fits c hc) fun c' hc' => Yields.pure ?_
    rw [Expr.Meets, if_pos rfl, hc'.1]
    exact ⟨mentioned, hc'.2.1 none, fun raw => Bool.noConfusion raw, hc'.2.2⟩
  | _, _, _, fits, .partialApply _ target args => by
    rw [Expr.Meets]
    rintro ⟨ht, hargs⟩
    refine Yields.bind (Expr.copy_meets fits target ht) fun target' ht' => ?_
    refine Yields.bind (copyList_meets fits args hargs) fun args' hargs' => Yields.pure ?_
    rw [Expr.Meets]
    exact ⟨ht', hargs'⟩
  | _, _, _, fits, .call _ args => by
    rw [Expr.Meets]
    rintro ⟨mentioned, hu, hd, hargs⟩
    refine Yields.bind (copyList_meets fits args hargs) fun args' hargs' => Yields.pure ?_
    rw [Expr.Meets]
    exact ⟨mentioned, fun upd => ⟨fits.updates (hu upd).1, (hu upd).2⟩,
      fun drawn => ⟨fits.draws (hd drawn).1, fun flagged => (hd drawn).2 (fits.flagged flagged)⟩,
      hargs'⟩
  | _, _, _, fits, .dynamicCall _ callee args => by
    rw [Expr.Meets]
    rintro ⟨hu, hcallee, hargs⟩
    refine Yields.bind (Expr.copy_meets fits callee hcallee) fun callee' hcallee' => ?_
    refine Yields.bind (copyList_meets fits args hargs) fun args' hargs' => Yields.pure ?_
    rw [Expr.Meets]
    exact ⟨fun upd => fits.updates (hu upd), hcallee', hargs'⟩

theorem copyList_meets : {a b : Allowance} → {r : Renaming} → r.Fits a b → (es : List Expr) →
    listMeets d true a es → Yields (copyList r es) (listMeets d true b)
  | _, _, _, _, [] => fun _ => Yields.pure (by simp only [listMeets])
  | _, _, _, fits, e :: es => by
    rw [listMeets]
    rintro ⟨he, hes⟩
    refine Yields.bind (Expr.copy_meets fits e he) fun e' he' => ?_
    refine Yields.bind (copyList_meets fits es hes) fun es' hes' => Yields.pure ?_
    rw [listMeets]
    exact ⟨he', hes'⟩

theorem Closure.copy_meets : {a b : Allowance} → {outer : Renaming} → outer.Fits a b →
    {updating : Bool} → (c : Closure) → c.Meets d true a updating →
    Yields (c.copy outer) fun c' => c'.annotations = c.annotations ∧
      (c.captures = [] → c'.captures = []) ∧ c'.Meets d true b updating
  | _, _, _, fits, updating, ⟨_, params, body, _, annotations, scope, captures, _, _, _⟩ => by
    rw [Closure.Meets]
    rintro ⟨hcompiled, hcaptures, hbody⟩
    refine Yields.bind (Scope.copy_fits d fits.flagged updating scope) fun p inner => ?_
    have required (id : VarId) : Yields (do return (← p.2.require id).id) fun _ => True :=
      Yields.bind (Yields.ofExcept fun _ _ => trivial) fun _ (_ : True) => Yields.pure trivial
    refine Yields.bind (Yields.mapM required params) fun params' _ => ?_
    refine Yields.bind (Expr.copy_meets inner body hbody) fun body' hbody' => ?_
    refine Yields.bind (copySupplies_meets fits p.2 captures hcaptures)
      fun captures' hcaptures' => Yields.pure ⟨rfl, hcaptures'.1, ?_⟩
    rw [Closure.Meets]
    exact ⟨hcompiled, hcaptures'.2, hbody'⟩

theorem copySupplies_meets : {a b : Allowance} → {outer : Renaming} → outer.Fits a b →
    (inner : Renaming) → (es : List (VarId × Expr)) → suppliesMeet d true a es →
    Yields (copySupplies outer inner es) fun es' => (es = [] → es' = []) ∧ suppliesMeet d true b es'
  | _, _, _, _, _, [] => fun _ => Yields.pure ⟨fun _ => rfl, by simp only [suppliesMeet]⟩
  | _, _, _, fits, inner, (_, e) :: es => by
    rw [suppliesMeet]
    rintro ⟨he, hes⟩
    refine Yields.bind (Yields.ofExcept fun _ _ => trivial) fun v (_ : True) => ?_
    refine Yields.bind (Expr.copy_meets fits e he) fun e' he' => ?_
    refine Yields.bind (copySupplies_meets fits inner es hes) fun es' hes' => Yields.pure ?_
    rw [suppliesMeet]
    exact ⟨fun none => absurd none (List.cons_ne_nil _ _), he', hes'.2⟩
end

namespace PartialApplication

theorem arrange_meets {compiled : Bool} (holes : List Nat) {params : List Expr}
    (open_ : ∀ e ∈ params, e.Meets d compiled a) (pos count : Nat) (supplied : List Value)
    (all : ∀ v ∈ supplied, v.Meets d) :
    ∀ e ∈ arrange holes params pos count supplied, e.Meets d compiled a := by
  induction count generalizing pos supplied with
  | zero => simp [arrange]
  | succ count ih =>
    unfold arrange
    split
    · rename_i param found
      obtain ⟨i, -, hi⟩ := Option.bind_eq_some_iff.1 found
      intro e he
      rcases List.mem_cons.1 he with rfl | he
      · exact open_ _ (List.mem_of_getElem? hi)
      · exact ih _ _ all e he
    · intro e he
      rcases List.mem_cons.1 he with rfl | he
      · rw [Expr.Meets]
        cases supplied with
        | nil => exact Value.meets_empty
        | cons v vs => exact all v (by simp)
      · exact ih _ _ (fun v hv => all v (List.mem_of_mem_tail hv)) e he

theorem openVariables_grows (item : FuncItem) (first : Nat) (holes : List Nat) (scope : Scope)
    (supply : Supply) :
    supply.nextVar ≤ ((openVariables item scope first holes).run supply).2.nextVar := by
  induction holes generalizing first scope supply with
  | nil => exact Nat.le_refl _
  | cons hole holes ih =>
    let name := (item.paramName? hole).getD s!"arg{first + 1}"
    have rest := ih (first + 1) (scope.add ⟨supply.nextVar⟩ name none true)
      { supply with nextVar := supply.nextVar + 1 }
    exact Nat.le_trans (Nat.le_succ _) rest

theorem make_meets {item : FuncItem} {supplied : List Value} {holes : List Nat} {span : Span}
    (hf : item.Meets d) (all : ∀ v ∈ supplied, v.Meets d) :
    Yields (make item supplied holes span) (·.Meets d) := by
  have opened : Yields (liftSupply (openVariables item {} 0 holes)) fun _ => True :=
    Yields.liftSupply fun supply => ⟨openVariables_grows item 0 holes {} supply, trivial⟩
  refine Yields.bind opened fun scope _ => ?_
  refine Yields.bind Yields.freshOrigin fun origin _ => ?_
  refine Yields.bind Yields.freshItem fun id _ => ?_
  refine Yields.bind (Yields.ofExcept fun _ _ => trivial) fun type (_ : True) => Yields.pure ?_
  rw [FuncItem.meets_iff, Code.Meets, Expr.Meets, listMeets_iff]
  refine ⟨by simp only [capturedMeet], fun upd _ => upd, ?_, ?_⟩
  · rwa [Expr.Meets, Value.meets_func]
  · refine arrange_meets holes ?_ _ _ _ all
    simp only [List.mem_map]
    rintro e ⟨v, -, rfl⟩
    simp only [Expr.Meets]

end PartialApplication

theorem Closure.toItem_meets {c : Closure} {captured : List (Variable × Value)}
    (hc : c.Meets d true a c.annotations.updating) (all : ∀ p ∈ captured, p.2.Meets d) :
    Yields (liftSupply (c.toItem captured)) (·.Meets d) := by
  refine Yields.liftSupply fun supply => ⟨Nat.le_refl _, ?_⟩
  rw [FuncItem.meets_iff]
  change Code.Meets d _ _ (.closure _ captured c.body c.scope)
  rw [Code.Meets, capturedMeet_iff]
  exact ⟨all, Expr.meets_mono (Allowance.ofClosure_le _ _) c.body (Closure.meets_iff.1 hc).2.2⟩

end QueryFunctions
