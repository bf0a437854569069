import QueryFunctions.Proofs.Expr.Nodes
import QueryFunctions.Proofs.Standard.Basic

/-! What the flags of compiled code are worth. Code whose calls are flagged updates and draws only if
its own flags say so, and the same goes for every node of it. -/
namespace QueryFunctions

/-- The allowance of code that updates only if `P` and draws only if `Q`. -/
def Allowance.only (a : Allowance) (P Q : Prop) : Allowance := { a with updates := P, draws := Q }

variable {d : Standard}

mutual
theorem Expr.meets_only : {a : Allowance} → {P Q : Prop} → a.flagged → (e : Expr) →
    e.Meets d true a → (e.has .upd = true → a.updates → P) →
    (e.has .ndt = true → a.draws → Q) →
    e.Meets d true (a.only P Q)
  | _, _, _, _, .value _, he, _, _ => by
    rw [Expr.Meets] at he ⊢
    exact he
  | _, _, _, _, .var _, _, _, _ | _, _, _, _, .focus _, _, _, _ | _, _, _, _, .error _, _, _, _ => by
    simp only [Expr.Meets]
  | _, _, _, hf, .letIn _ _ bound body, he, upd, ndt => by
    simp only [Expr.has, Bool.or_eq_true] at upd ndt
    rw [Expr.Meets] at he ⊢
    exact ⟨he.1, he.2.1, Expr.meets_only hf bound he.2.2.1 (upd ∘ .inl) (ndt ∘ .inl),
      Expr.meets_only hf body he.2.2.2 (upd ∘ .inr) (ndt ∘ .inr)⟩
  | _, _, _, hf, .branch cond yes no _, he, upd, ndt => by
    simp only [Expr.has, Bool.or_eq_true] at upd ndt
    rw [Expr.Meets] at he ⊢
    exact ⟨Expr.meets_only hf cond he.1 (upd ∘ .inl ∘ .inl) (ndt ∘ .inl ∘ .inl),
      Expr.meets_only hf yes he.2.1 (upd ∘ .inl ∘ .inr) (ndt ∘ .inl ∘ .inr),
      Expr.meets_only hf no he.2.2 (upd ∘ .inr) (ndt ∘ .inr)⟩
  | _, _, _, hf, .arith _ lhs rhs _, he, upd, ndt => by
    simp only [Expr.has, Bool.or_eq_true] at upd ndt
    rw [Expr.Meets] at he ⊢
    exact ⟨Expr.meets_only hf lhs he.1 (upd ∘ .inl) (ndt ∘ .inl),
      Expr.meets_only hf rhs he.2 (upd ∘ .inr) (ndt ∘ .inr)⟩
  | _, _, _, hf, .compare _ lhs rhs _, he, upd, ndt => by
    simp only [Expr.has, Bool.or_eq_true] at upd ndt
    rw [Expr.Meets] at he ⊢
    exact ⟨Expr.meets_only hf lhs he.1 (upd ∘ .inl) (ndt ∘ .inl),
      Expr.meets_only hf rhs he.2 (upd ∘ .inr) (ndt ∘ .inr)⟩
  | _, _, _, hf, .seq items, he, upd, ndt => by
    rw [Expr.has] at upd ndt
    rw [Expr.Meets] at he ⊢
    exact listMeets_only hf items he upd ndt
  | _, _, _, hf, .treat expr _ _, he, upd, ndt => by
    rw [Expr.has] at upd ndt
    rw [Expr.Meets] at he ⊢
    exact Expr.meets_only hf expr he upd ndt
  | _, _, _, hf, .builtin function args _, he, upd, ndt => by
    simp only [Expr.has, Bool.or_eq_true] at upd ndt
    rw [Expr.Meets] at he ⊢
    exact ⟨fun on => upd (.inl on) (he.1 on), fun on => ndt (.inl on) (he.2.1 on),
      listMeets_only hf args he.2.2 (upd ∘ .inr) (ndt ∘ .inr)⟩
  | _, _, _, hf, .closure c, he, upd, ndt => by
    rw [Expr.has] at upd ndt
    rw [Expr.Meets] at he ⊢
    exact Closure.meets_only hf c he upd ndt
  | _, _, _, hf, .literal _ c, he, _, _ => by
    rw [Expr.Meets] at he ⊢
    have quiet : ∀ {flag : Flag} {R : Prop}, c.has flag = true → R := by
      intro flag R on
      rw [Closure.has_of_no_captures he.2.1] at on
      cases on
    exact ⟨he.1, he.2.1, he.2.2.1, Closure.meets_only hf c he.2.2.2 quiet quiet⟩
  | _, _, _, hf, .partialApply _ target args, he, upd, ndt => by
    simp only [Expr.has, Bool.or_eq_true] at upd ndt
    rw [Expr.Meets] at he ⊢
    exact ⟨Expr.meets_only hf target he.1 (upd ∘ .inl) (ndt ∘ .inl),
      listMeets_only hf args he.2 (upd ∘ .inr) (ndt ∘ .inr)⟩
  | _, _, _, hf, .call site args, he, upd, ndt => by
    simp only [Expr.has, Bool.or_eq_true] at upd ndt
    rw [Expr.Meets] at he ⊢
    obtain ⟨mentioned, updates, draws, hargs⟩ := he
    refine ⟨mentioned, fun updating => ?_, fun drawn => ?_,
      listMeets_only hf args hargs (upd ∘ .inr) (ndt ∘ .inr)⟩
    · have on := (updates updating).2 rfl
      exact ⟨upd (.inl on) (updates updating).1, fun _ => on⟩
    · have on := (draws drawn).2 hf
      exact ⟨ndt (.inl on) (draws drawn).1, fun _ => on⟩
  | _, _, _, hf, .dynamicCall site callee args, he, upd, ndt => by
    simp only [Expr.has, Bool.or_eq_true] at upd ndt
    rw [Expr.Meets] at he ⊢
    exact ⟨fun updating => upd (.inl (.inl (by simp [updating]))) (he.1 updating),
      Expr.meets_only hf callee he.2.1 (upd ∘ .inl ∘ .inr) (ndt ∘ .inl ∘ .inr),
      listMeets_only hf args he.2.2 (upd ∘ .inr) (ndt ∘ .inr)⟩

theorem listMeets_only : {a : Allowance} → {P Q : Prop} → a.flagged → (es : List Expr) →
    listMeets d true a es → (anyHas .upd es = true → a.updates → P) →
    (anyHas .ndt es = true → a.draws → Q) →
    listMeets d true (a.only P Q) es
  | _, _, _, _, [], _, _, _ => by simp only [listMeets]
  | _, _, _, hf, e :: es, he, upd, ndt => by
    simp only [anyHas, Bool.or_eq_true] at upd ndt
    rw [listMeets] at he ⊢
    exact ⟨Expr.meets_only hf e he.1 (upd ∘ .inl) (ndt ∘ .inl),
      listMeets_only hf es he.2 (upd ∘ .inr) (ndt ∘ .inr)⟩

theorem Closure.meets_only : {a : Allowance} → {P Q : Prop} → a.flagged → {updating : Bool} →
    (c : Closure) → c.Meets d true a updating → (c.has .upd = true → a.updates → P) →
    (c.has .ndt = true → a.draws → Q) → c.Meets d true (a.only P Q) updating
  | _, _, _, hf, _, ⟨_, _, _, _, _, _, captures, _, _, _⟩, hc, upd, ndt => by
    rw [Closure.has] at upd ndt
    rw [Closure.Meets] at hc ⊢
    exact ⟨hc.1, suppliesMeet_only hf captures hc.2.1 upd ndt, hc.2.2⟩

theorem suppliesMeet_only : {a : Allowance} → {P Q : Prop} → a.flagged →
    (es : List (VarId × Expr)) → suppliesMeet d true a es → (anySupplyHas .upd es = true → a.updates → P) →
    (anySupplyHas .ndt es = true → a.draws → Q) → suppliesMeet d true (a.only P Q) es
  | _, _, _, _, [], _, _, _ => by simp only [suppliesMeet]
  | _, _, _, hf, (_, e) :: es, he, upd, ndt => by
    simp only [anySupplyHas, Bool.or_eq_true] at upd ndt
    rw [suppliesMeet] at he ⊢
    exact ⟨Expr.meets_only hf e he.1 (upd ∘ .inl) (ndt ∘ .inl),
      suppliesMeet_only hf es he.2 (upd ∘ .inr) (ndt ∘ .inr)⟩
end

/-- Code that meets the standard with its calls flagged. -/
def Expr.Flagged (d : Standard) (e : Expr) : Prop := ∃ a : Allowance, a.flagged ∧ e.Meets d true a

theorem Closure.flagged_part {a : Allowance} (hf : a.flagged) {updating : Bool} {c : Closure}
    (hc : c.Meets d true a updating) {p : Expr} (mem : p ∈ c.captures.map Prod.snd ++ [c.body]) :
    p.Flagged d := by
  obtain ⟨-, captures, body⟩ := Closure.meets_iff.1 hc
  rcases List.mem_append.1 mem with mem | mem
  · obtain ⟨capture, among, rfl⟩ := List.mem_map.1 mem
    exact ⟨a, hf, captures capture among⟩
  · rw [List.mem_singleton.1 mem]
    exact ⟨.ofClosure d a updating c.scope, hf, body⟩

theorem Expr.Flagged.part {e p : Expr} (h : e.Flagged d) (mem : p ∈ e.parts) : p.Flagged d := by
  obtain ⟨a, hf, he⟩ := h
  cases e with
  | value v | var ref | focus span | error e => cases mem
  | letIn id slot bound body =>
    rw [Expr.Meets] at he
    obtain rfl | rfl : p = _ ∨ p = _ := by simpa [Expr.parts] using mem
    · exact ⟨a, hf, he.2.2.1⟩
    · exact ⟨a, hf, he.2.2.2⟩
  | branch cond yes no span =>
    rw [Expr.Meets] at he
    obtain rfl | rfl | rfl : p = _ ∨ p = _ ∨ p = _ := by simpa [Expr.parts] using mem
    · exact ⟨a, hf, he.1⟩
    · exact ⟨a, hf, he.2.1⟩
    · exact ⟨a, hf, he.2.2⟩
  | arith op lhs rhs span | compare op lhs rhs span =>
    rw [Expr.Meets] at he
    obtain rfl | rfl : p = _ ∨ p = _ := by simpa [Expr.parts] using mem
    · exact ⟨a, hf, he.1⟩
    · exact ⟨a, hf, he.2⟩
  | seq items =>
    rw [Expr.Meets, listMeets_iff] at he
    exact ⟨a, hf, he p mem⟩
  | treat e type span =>
    rw [Expr.Meets] at he
    exact ⟨a, hf, List.mem_singleton.1 mem ▸ he⟩
  | builtin b args span =>
    rw [Expr.Meets, listMeets_iff] at he
    exact ⟨a, hf, he.2.2 p mem⟩
  | call site args =>
    rw [Expr.Meets, listMeets_iff] at he
    exact ⟨a, hf, he.2.2.2 p mem⟩
  | closure c =>
    rw [Expr.Meets] at he
    exact Closure.flagged_part hf he mem
  | literal site c =>
    rw [Expr.Meets] at he
    exact Closure.flagged_part hf he.2.2.2 mem
  | partialApply site target args =>
    rw [Expr.Meets, listMeets_iff] at he
    rcases List.mem_cons.1 mem with rfl | mem
    · exact ⟨a, hf, he.1⟩
    · exact ⟨a, hf, he.2 p mem⟩
  | dynamicCall site callee args =>
    rw [Expr.Meets, listMeets_iff] at he
    rcases List.mem_cons.1 mem with rfl | mem
    · exact ⟨a, hf, he.2.1⟩
    · exact ⟨a, hf, he.2.2 p mem⟩

theorem Expr.flagged_of_mem_nodes {a : Allowance} (hf : a.flagged) {e : Expr} (he : e.Meets d true a)
    {n : Expr} (mem : n ∈ e.nodes) : n.Flagged d :=
  Expr.of_mem_nodes (fun _ h _ part => h.part part) e ⟨a, hf, he⟩ mem

end QueryFunctions
