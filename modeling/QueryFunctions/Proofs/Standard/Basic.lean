import QueryFunctions.Expr.Traversal
import QueryFunctions.Value.Arithmetic

/-! What code may do in the frame that it runs in, and a standard that code meets: each function body stays
within what its annotation and its scope allow, and so does every function that occurs as a value. A
standard leaves open which of its demands are made. -/
namespace QueryFunctions

/-- What code may do in the frame that it runs in. -/
structure Allowance where
  /-- Ask for updates. -/
  updates : Prop
  /-- Draw random numbers. -/
  draws : Prop
  /-- Write to these slots. -/
  slot : Nat → Prop
  /-- Bind these variables. -/
  binds : VarId → Prop
  /-- In return, each call has to tell by its flags whether the function that it calls draws. -/
  flagged : Prop

structure Standard where
  /-- Functions update only if they are annotated so. -/
  annotated : Prop
  /-- A function body binds only variables of its own scope. -/
  bound : Prop
  isUpdating : FuncId → Bool
  mentioned : FuncId → Prop
  draws : FuncId → Prop

namespace Allowance

structure Le (a b : Allowance) : Prop where
  updates : a.updates → b.updates
  draws : a.draws → b.draws
  slot : ∀ {i}, a.slot i → b.slot i
  binds : ∀ {id}, a.binds id → b.binds id
  flagged : b.flagged → a.flagged

instance : LE Allowance := ⟨Le⟩

/-- The same without any slot of the frame at hand. -/
def still (a : Allowance) : Allowance := { a with slot := fun _ => False }

/-- The same with every slot and every variable, and nothing asked in return. -/
def wide (a : Allowance) : Allowance :=
  { a with slot := fun _ => True, binds := fun _ => True, flagged := False }

theorem still_le (a : Allowance) : a.still ≤ a := ⟨id, id, False.elim, id, id⟩

/-- What the body of a function may do, which is annotated `updating` or not. -/
def ofBody (d : Standard) (updating : Bool) (scope : Scope) : Allowance where
  updates := d.annotated → updating = true
  draws := True
  slot _ := True
  binds id := d.bound → (scope.find? id).isSome = true
  flagged := False

/-- What the body of a closure may do that stands in code with the allowance `a`. -/
def ofClosure (d : Standard) (a : Allowance) (updating : Bool) (scope : Scope) : Allowance :=
  { ofBody d updating scope with flagged := a.flagged }

def ofFunction (d : Standard) (id : FuncId) (scope : Scope) : Allowance :=
  { ofBody d (d.isUpdating id) scope with draws := d.draws id }

end Allowance

/-- The body of a raw literal updates exactly if the function does that it names. -/
def Closure.StandsFor (target : FuncId) (c : Closure) : Prop :=
  ∀ isUpdating : FuncId → Bool, c.body.updates isUpdating = isUpdating target

mutual
def Value.Meets (d : Standard) : Value → Prop
  | .int _ | .bool _ | .str _ => True
  | .seq vs => valuesMeet d vs
  | .func f => f.Meets d
termination_by structural x => x

def valuesMeet (d : Standard) : List Value → Prop
  | [] => True
  | v :: vs => v.Meets d ∧ valuesMeet d vs
termination_by structural x => x

def FuncItem.Meets (d : Standard) : FuncItem → Prop
  | ⟨_, _, _, type, annotations, _, code⟩ => code.Meets d type.updating annotations.updating
termination_by structural x => x

def Code.Meets (d : Standard) (typed updating : Bool) : Code → Prop
  | .builtin b => b.flags.upd = true → typed = true ∧ updating = true
  | .closure _ captured body scope =>
    capturedMeet d captured ∧ body.Meets d true (.ofBody d updating scope)
termination_by structural x => x

def capturedMeet (d : Standard) : List (Variable × Value) → Prop
  | [] => True
  | (_, v) :: vs => v.Meets d ∧ capturedMeet d vs
termination_by structural x => x

/-- Code that is `compiled` or still raw, and does in its frame what `a` allows. -/
def Expr.Meets (d : Standard) (compiled : Bool) (a : Allowance) : Expr → Prop
  | .value v => v.Meets d
  | .var _ | .focus _ | .error _ => True
  | .letIn id slot value body =>
    a.slot slot ∧ a.binds id ∧ value.Meets d compiled a ∧ body.Meets d compiled a
  | .branch cond yes no _ =>
    cond.Meets d compiled a ∧ yes.Meets d compiled a ∧ no.Meets d compiled a
  | .arith _ lhs rhs _ | .compare _ lhs rhs _ => lhs.Meets d compiled a ∧ rhs.Meets d compiled a
  | .seq items => listMeets d compiled a items
  | .treat expr _ _ => expr.Meets d compiled a
  | .builtin function args _ =>
    (function.flags.upd = true → a.updates) ∧ (function.flags.ndt = true → a.draws) ∧
      listMeets d compiled a args
  | .closure c => c.Meets d compiled a c.annotations.updating
  | .literal site c =>
    d.mentioned site.target ∧ c.captures = [] ∧ (compiled = false → c.StandsFor site.target) ∧
      c.Meets d compiled a (if compiled then c.annotations.updating else d.isUpdating site.target)
  | .partialApply _ target args => target.Meets d compiled a ∧ listMeets d compiled a args
  | .call site args =>
    d.mentioned site.target ∧
      (d.isUpdating site.target = true → a.updates ∧ (compiled = true → site.flags.upd = true)) ∧
      (d.draws site.target → a.draws ∧ (a.flagged → site.flags.ndt = true)) ∧
      listMeets d compiled a args
  | .dynamicCall site callee args =>
    (site.updating = true → a.updates) ∧ callee.Meets d compiled a ∧ listMeets d compiled a args
termination_by structural x => x

def listMeets (d : Standard) (compiled : Bool) (a : Allowance) : List Expr → Prop
  | [] => True
  | e :: es => e.Meets d compiled a ∧ listMeets d compiled a es
termination_by structural x => x

/-- A closure, raw or compiled like the code around it, whose body runs as that of an updating
function or not. -/
def Closure.Meets (d : Standard) (compiled : Bool) (a : Allowance) (updating : Bool) :
    Closure → Prop
  | ⟨_, _, body, _, _, scope, captures, _, isCompiled, _⟩ =>
    isCompiled = compiled ∧ suppliesMeet d compiled a captures ∧
      body.Meets d compiled (.ofClosure d a updating scope)
termination_by structural x => x

def suppliesMeet (d : Standard) (compiled : Bool) (a : Allowance) : List (VarId × Expr) → Prop
  | [] => True
  | (_, e) :: es => e.Meets d compiled a ∧ suppliesMeet d compiled a es
termination_by structural x => x
end

variable {d : Standard} {compiled updating : Bool} {a b : Allowance}

section

attribute [local simp] Value.Meets valuesMeet FuncItem.Meets Code.Meets capturedMeet Expr.Meets
  listMeets Closure.Meets suppliesMeet

theorem valuesMeet_iff {vs : List Value} : valuesMeet d vs ↔ ∀ v ∈ vs, v.Meets d := by
  induction vs with
  | nil => simp
  | cons v vs ih => simp [ih]

theorem capturedMeet_iff {vs : List (Variable × Value)} :
    capturedMeet d vs ↔ ∀ p ∈ vs, p.2.Meets d := by
  induction vs with
  | nil => simp
  | cons p vs ih => cases p; simp [ih]

theorem listMeets_iff {es : List Expr} :
    listMeets d compiled a es ↔ ∀ e ∈ es, e.Meets d compiled a := by
  induction es with
  | nil => simp
  | cons e es ih => simp [ih]

theorem suppliesMeet_iff {es : List (VarId × Expr)} :
    suppliesMeet d compiled a es ↔ ∀ p ∈ es, p.2.Meets d compiled a := by
  induction es with
  | nil => simp
  | cons p es ih => cases p; simp [ih]

theorem Closure.meets_iff {c : Closure} :
    c.Meets d compiled a updating ↔ c.compiled = compiled ∧
      (∀ p ∈ c.captures, p.2.Meets d compiled a) ∧
      c.body.Meets d compiled (.ofClosure d a updating c.scope) := by
  cases c
  simp [suppliesMeet_iff]

theorem Closure.has_of_no_captures {c : Closure} {flag : Flag} (none : c.captures = []) :
    c.has flag = false := by
  cases c
  cases none
  rfl

theorem FuncItem.meets_iff {f : FuncItem} :
    f.Meets d ↔ f.code.Meets d f.type.updating f.annotations.updating := by
  cases f
  simp

theorem Value.meets_func {f : FuncItem} : (Value.func f).Meets d ↔ f.Meets d := by simp

theorem Value.meets_empty : Value.empty.Meets d := by simp [Value.empty]

end

theorem Value.Meets.items {v w : Value} (hv : v.Meets d) (hw : w ∈ v.items) : w.Meets d := by
  cases v with
  | seq vs =>
    rw [Value.Meets, valuesMeet_iff] at hv
    exact hv w hw
  | int i | bool i | str i | func i =>
    obtain rfl := List.mem_singleton.1 hw
    exact hv

theorem Value.meets_ofItems {vs : List Value} (all : ∀ v ∈ vs, v.Meets d) :
    (Value.ofItems vs).Meets d := by
  have flat : ∀ w ∈ vs.flatMap Value.items, w.Meets d := by
    intro w hw
    obtain ⟨v, hv, hw⟩ := List.mem_flatMap.1 hw
    exact (all v hv).items hw
  unfold Value.ofItems
  split
  · rename_i v single
    exact flat v (by simp [single])
  · rw [Value.Meets]
    exact valuesMeet_iff.2 flat

theorem ArithOp.apply_cases (op : ArithOp) (lhs rhs : Value) (span : Span) :
    op.apply lhs rhs span = .ok .empty ∨ (∃ e, op.apply lhs rhs span = .error e) ∨
      ∃ i, op.apply lhs rhs span = .ok (.int i) := by
  unfold apply
  split
  · exact .inl rfl
  · cases lhs.asInt span with
    | error e => exact .inr (.inl ⟨e, rfl⟩)
    | ok l =>
      cases rhs.asInt span with
      | error e => exact .inr (.inl ⟨e, rfl⟩)
      | ok r =>
        cases h : op.words l r span with
        | error e => exact .inr (.inl ⟨e, by simp [h, bind, Except.bind]⟩)
        | ok i => exact .inr (.inr ⟨i, by simp [h, bind, Except.bind, pure, Except.pure]⟩)

theorem ArithOp.meets_of_apply {op : ArithOp} {lhs rhs v : Value} {span : Span}
    (computed : op.apply lhs rhs span = .ok v) : v.Meets d := by
  rcases op.apply_cases lhs rhs span with h | ⟨e, h⟩ | ⟨i, h⟩ <;> rw [h] at computed <;> cases computed
  · exact Value.meets_empty
  · simp only [Value.Meets]

theorem Value.meets_ofName (f : FuncItem) : (Value.ofName f).Meets d := by
  unfold Value.ofName
  split
  · simp only [Value.Meets]
  · exact Value.meets_empty

theorem Value.Meets.asFunc {v : Value} {f : FuncItem} {span : Span} (hv : v.Meets d)
    (found : v.asFunc span = .ok f) : f.Meets d := by
  cases v with
  | func g =>
    cases found
    exact Value.meets_func.1 hv
  | int i | bool i | str i | seq i => cases found

namespace Allowance

theorem still_le_wide_still (a : Allowance) : a.still ≤ a.wide.still :=
  ⟨id, id, id, fun _ => trivial, False.elim⟩

theorem ofBody_le_wide (updates : (d.annotated → updating = true) → a.updates) (draws : a.draws)
    (scope : Scope) : ofBody d updating scope ≤ a.wide :=
  ⟨updates, fun _ => draws, fun _ => trivial, fun _ => trivial, False.elim⟩

theorem ofFunction_le_wide {id : FuncId} (draws : d.draws id → a.draws)
    (updates : (d.annotated → d.isUpdating id = true) → a.updates) (scope : Scope) :
    ofFunction d id scope ≤ a.wide :=
  ⟨updates, draws, fun _ => trivial, fun _ => trivial, False.elim⟩

theorem ofBody_le {s t : Scope} (h : ∀ id, (s.find? id).isSome = true → (t.find? id).isSome = true) :
    ofBody d updating s ≤ ofBody d updating t :=
  ⟨id, id, id, fun hb demanded => h _ (hb demanded), id⟩

theorem ofClosure_le (updating : Bool) (scope : Scope) :
    ofClosure d a updating scope ≤ ofBody d updating scope := ⟨id, id, id, id, False.elim⟩

theorem ofBody_le_ofClosure (unflagged : ¬a.flagged) (updating : Bool) (scope : Scope) :
    ofBody d updating scope ≤ ofClosure d a updating scope :=
  ⟨id, id, id, id, fun h => (unflagged h).elim⟩

theorem ofClosure_mono (h : a ≤ b) (updating : Bool) (scope : Scope) :
    ofClosure d a updating scope ≤ ofClosure d b updating scope := ⟨id, id, id, id, h.flagged⟩

end Allowance

mutual
theorem Expr.meets_mono : {a b : Allowance} → a ≤ b → (e : Expr) → e.Meets d compiled a →
    e.Meets d compiled b
  | _, _, _, .value _ | _, _, _, .var _ | _, _, _, .focus _ | _, _, _, .error _ => by
    simp only [Expr.Meets, imp_self]
  | _, _, h, .letIn _ _ value body => by
    simp only [Expr.Meets]
    rintro ⟨hs, hb, hv, he⟩
    exact ⟨h.slot hs, h.binds hb, Expr.meets_mono h value hv, Expr.meets_mono h body he⟩
  | _, _, h, .branch cond yes no _ => by
    simp only [Expr.Meets]
    rintro ⟨hc, hy, hn⟩
    exact ⟨Expr.meets_mono h cond hc, Expr.meets_mono h yes hy, Expr.meets_mono h no hn⟩
  | _, _, h, .arith _ lhs rhs _ => by
    simp only [Expr.Meets]
    exact fun he => ⟨Expr.meets_mono h lhs he.1, Expr.meets_mono h rhs he.2⟩
  | _, _, h, .compare _ lhs rhs _ => by
    simp only [Expr.Meets]
    exact fun he => ⟨Expr.meets_mono h lhs he.1, Expr.meets_mono h rhs he.2⟩
  | _, _, h, .seq items => by
    simp only [Expr.Meets]
    exact listMeets_mono h items
  | _, _, h, .treat expr _ _ => by
    simp only [Expr.Meets]
    exact Expr.meets_mono h expr
  | _, _, h, .builtin _ args _ => by
    simp only [Expr.Meets]
    rintro ⟨hu, hd, ha⟩
    exact ⟨fun upd => h.updates (hu upd), fun ndt => h.draws (hd ndt), listMeets_mono h args ha⟩
  | _, _, h, .closure c => by
    simp only [Expr.Meets]
    exact Closure.meets_mono h c
  | _, _, h, .literal _ c => by
    simp only [Expr.Meets]
    exact fun he => ⟨he.1, he.2.1, he.2.2.1, Closure.meets_mono h c he.2.2.2⟩
  | _, _, h, .partialApply _ target args => by
    simp only [Expr.Meets]
    exact fun he => ⟨Expr.meets_mono h target he.1, listMeets_mono h args he.2⟩
  | _, _, h, .call _ args => by
    simp only [Expr.Meets]
    rintro ⟨hm, hu, hd, ha⟩
    refine ⟨hm, fun upd => ⟨h.updates (hu upd).1, (hu upd).2⟩, fun drawn => ?_,
      listMeets_mono h args ha⟩
    exact ⟨h.draws (hd drawn).1, fun flagged => (hd drawn).2 (h.flagged flagged)⟩
  | _, _, h, .dynamicCall _ callee args => by
    simp only [Expr.Meets]
    rintro ⟨hu, hc, ha⟩
    exact ⟨fun upd => h.updates (hu upd), Expr.meets_mono h callee hc, listMeets_mono h args ha⟩

theorem listMeets_mono : {a b : Allowance} → a ≤ b →
    (es : List Expr) → listMeets d compiled a es → listMeets d compiled b es
  | _, _, _, [] => by simp only [listMeets, imp_self]
  | _, _, h, e :: es => by
    simp only [listMeets]
    exact fun he => ⟨Expr.meets_mono h e he.1, listMeets_mono h es he.2⟩

theorem Closure.meets_mono : {a b : Allowance} → a ≤ b →
    {updating : Bool} → (c : Closure) → c.Meets d compiled a updating → c.Meets d compiled b updating
  | _, _, h, updating, ⟨_, _, body, _, _, scope, captures, _, _, _⟩ => by
    simp only [Closure.Meets]
    exact fun hc => ⟨hc.1, suppliesMeet_mono h captures hc.2.1,
      Expr.meets_mono (Allowance.ofClosure_mono h updating scope) body hc.2.2⟩

theorem suppliesMeet_mono : {a b : Allowance} → a ≤ b →
    (es : List (VarId × Expr)) → suppliesMeet d compiled a es → suppliesMeet d compiled b es
  | _, _, _, [] => by simp only [suppliesMeet, imp_self]
  | _, _, h, (_, e) :: es => by
    simp only [suppliesMeet]
    exact fun he => ⟨Expr.meets_mono h e he.1, suppliesMeet_mono h es he.2⟩
end

theorem Expr.Meets.mono {e : Expr} (he : e.Meets d compiled a) (h : a ≤ b) : e.Meets d compiled b :=
  Expr.meets_mono h e he

theorem Closure.Meets.mono {c : Closure} (hc : c.Meets d compiled a updating) (h : a ≤ b) :
    c.Meets d compiled b updating := Closure.meets_mono h c hc

end QueryFunctions
