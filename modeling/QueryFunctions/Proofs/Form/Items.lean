import QueryFunctions.Expr.Item
import QueryFunctions.Proofs.Form.Basic
import QueryFunctions.Proofs.Law.Supplied

/-! Function items made of well-formed code. The item of a closure has a value for every variable that
the closure captures, and that of a partial application a parameter for every open position. -/
namespace QueryFunctions

variable {w : World} {p : Place} {supply : Supply}

theorem FuncItem.formed_ofBuiltin (b : Builtin) (supply : Supply) :
    ((FuncItem.ofBuiltin b).run supply).1.Formed w := .builtin rfl

namespace Scope

theorem mem_layout_of_mem {s : Scope} {v : Variable} (mem : v ∈ s.vars) :
    (v.id, v.slot) ∈ s.layout := List.mem_map_of_mem mem

theorem ids_filterMap_find? {s : Scope} {ids : List VarId}
    (known : ∀ id ∈ ids, id ∈ s.layout.map Prod.fst) : (ids.filterMap s.find?).map (·.id) = ids := by
  induction ids with
  | nil => rfl
  | cons id ids ih =>
    obtain ⟨v, found⟩ := Option.isSome_iff_exists.1 (isSome_find?_iff.2 (known id (by simp)))
    rw [List.filterMap_cons_some found, List.map_cons, (mem_layout_of_find? found).1,
      ih fun x mem => known x (by simp [mem])]

end Scope

theorem Closure.Formed.toItem {c : Closure} (hc : c.Formed w p)
    {captured : List (Variable × Value)}
    (keys : captured.map (·.1.id) = c.captures.map Prod.fst)
    (placed : ∀ q ∈ captured, (q.1.id, q.1.slot) ∈ c.scope.layout)
    (values : ∀ q ∈ captured, q.2.Formed w) (start : Supply) :
    ((c.toItem captured).run start).1.Formed w := by
  have hbody := hc.body
  cases hc with
  | intro serves =>
    have ids : c.paramVariables.map (·.id) = c.params :=
      Scope.ids_filterMap_find? fun id mem => serves.known id (.inl mem)
    have arity : c.funcType.arity = c.paramVariables.length := by
      have lengths := congrArg List.length ids
      rw [List.length_map] at lengths
      rw [lengths]
      simp [Closure.funcType, Closure.typeWith, FuncType.arity]
    have serves' : c.scope.Serves p.supply (c.paramVariables.map (·.id)) (captured.map (·.1.id)) := by
      rw [ids, keys]
      exact serves
    refine .closure rfl arity serves' (fun v mem => ?_) placed values ?_
    · obtain ⟨id, -, found⟩ := List.mem_filterMap.1 mem
      have here := Scope.mem_layout_of_find? found
      exact here.1 ▸ here.2
    · rw [ids, keys]
      exact hbody

namespace PartialApplication

/-- An open position is one of a parameter, unless the positions may be wrong. -/
theorem openTypes_exact {params : List SeqType} {holes : List Nat}
    (exact : w.exact → ∀ hole ∈ holes, hole < params.length) :
    (∀ f, openTypes params holes = .error f → w.faults f) ∧
      ∀ types, openTypes params holes = .ok types → types.length = holes.length := by
  induction holes with
  | nil =>
    refine ⟨by rintro f ⟨⟩, ?_⟩
    rintro types ⟨⟩
    rfl
  | cons hole holes ih =>
    obtain ⟨met, length⟩ := ih fun h x mem => exact h x (List.mem_cons_of_mem _ mem)
    cases present : params[hole]? with
    | none =>
      have run : openTypes params (hole :: holes) = .error (.missingParameter hole) := by
        unfold openTypes
        rw [List.mapM_cons, present]
        rfl
      rw [run]
      refine ⟨?_, by rintro types ⟨⟩⟩
      rintro f ⟨⟩ h
      exact absurd (exact h hole List.mem_cons_self) (by simpa using present)
    | some type =>
      have run : openTypes params (hole :: holes) =
          openTypes params holes >>= fun types => pure (type :: types) := by
        unfold openTypes
        rw [List.mapM_cons, present]
        rfl
      rw [run]
      cases rest : openTypes params holes with
      | error f =>
        refine ⟨?_, by rintro types ⟨⟩⟩
        rintro f' ⟨⟩
        exact met f rest
      | ok types =>
        refine ⟨by rintro f ⟨⟩, ?_⟩
        rintro types' ⟨⟩
        rw [List.length_cons, length types rest, List.length_cons]

theorem openType_exact {type : FuncType} {holes : List Nat}
    (exact : w.exact → ∀ hole ∈ holes, hole < type.arity) :
    (∀ f, openType type holes = .error f → w.faults f) ∧
      ∀ left, openType type holes = .ok left → left.arity = holes.length := by
  obtain ⟨met, length⟩ := openTypes_exact exact
  unfold openType
  cases opened : openTypes type.params holes with
  | error f =>
    refine ⟨?_, by rintro left ⟨⟩⟩
    rintro f' ⟨⟩
    exact met f opened
  | ok types =>
    refine ⟨by rintro f ⟨⟩, ?_⟩
    rintro left ⟨⟩
    exact length types opened

theorem openVariables_serves (item : FuncItem) (first : Nat) (holes : List Nat) {scope : Scope}
    (serves : scope.Serves supply (scope.vars.map (·.id)) []) :
    let result := (openVariables item scope first holes).run supply
    result.1.Serves result.2 (result.1.vars.map (·.id)) [] ∧
      result.1.vars.length = scope.vars.length + holes.length ∧
        supply.nextVar ≤ result.2.nextVar := by
  induction holes generalizing first scope supply with
  | nil => exact ⟨serves, rfl, Nat.le_refl _⟩
  | cons hole holes ih =>
    obtain ⟨next, one⟩ := serves.declare_own ((item.paramName? hole).getD s!"arg{first + 1}")
    obtain ⟨serves', length, grows⟩ := ih (first + 1) next
    refine ⟨serves', length.trans ?_, Nat.le_trans (Nat.le_succ _) grows⟩
    rw [one, List.length_cons]
    omega

theorem arrange_forms (holes : List Nat) {params : List Expr} (open_ : ∀ e ∈ params, e.Formed w p)
    (pos count : Nat) (supplied : List Value) (all : ∀ v ∈ supplied, v.Formed w) :
    ∀ e ∈ arrange holes params pos count supplied, e.Formed w p := by
  induction count generalizing pos supplied with
  | zero => simp [arrange]
  | succ count ih =>
    unfold arrange
    split
    · rename_i param found
      obtain ⟨i, -, hi⟩ := Option.bind_eq_some_iff.1 found
      exact List.forall_mem_cons.2 ⟨open_ _ (List.mem_of_getElem? hi), ih _ _ all⟩
    · refine List.forall_mem_cons.2 ⟨.value ?_, ih _ _ fun v mem => all v (List.mem_of_mem_tail mem)⟩
      cases supplied with
      | nil => exact .seq (by simp)
      | cons v vs => exact all v (by simp)

theorem make_forms {item : FuncItem} {supplied : List Value} {holes : List Nat} {span : Span}
    (hitem : item.Formed w) (values : ∀ v ∈ supplied, v.Formed w)
    (exact : w.exact → ∀ hole ∈ holes, hole < item.arity) (s : Supply) :
    Gives w.faults s (make item supplied holes span) fun f _ => f.Formed w := by
  obtain ⟨serves, length, grows⟩ := openVariables_serves item 0 holes (.empty s)
  obtain ⟨met, arity⟩ := openType_exact (show w.exact → ∀ hole ∈ holes, hole < item.type.arity from exact)
  refine Gives.bind (Gives.liftSupply grows) fun scope t _ same => ?_
  rw [← same] at serves length
  refine Gives.bind (Gives.liftSupply (by exact Nat.le_refl t.nextVar)) fun origin u _ _ => ?_
  refine Gives.bind (Gives.liftSupply (by exact Nat.le_refl u.nextVar)) fun id v _ _ => ?_
  refine Gives.bind (Gives.ofExcept met) fun type x _ opened => Gives.pure ?_
  refine .closure rfl ?_ serves
    (fun v mem => Scope.mem_layout_of_mem mem) (by simp) (by simp) ?_
  · exact (arity type opened.1).trans (by simpa using length.symm)
  · refine .dynamicCall (.value (.func hitem)) (arrange_forms holes ?_ _ _ _ values)
    refine List.forall_mem_map.2 fun v mem => .var (.inl (List.mem_map_of_mem mem)) ?_
    exact Scope.mem_layout_of_mem mem

end PartialApplication

end QueryFunctions
