import QueryFunctions.Proofs.Expr.Nodes
import QueryFunctions.Value.Basic
import QueryFunctions.Proofs.Standard.Copying
import QueryFunctions.Proofs.Termination.Rewriting
import QueryFunctions.Proofs.Termination.Simplify

/-! Canonical values. Flattening takes one level of sequences away, so it gives the items of all values
only as long as no sequence is an item of another. A value is canonical through and through if all that it
holds is, in captured variables and in the constants of bodies too; rewriting keeps code so. -/
namespace QueryFunctions

namespace Value

def isSeq : Value → Bool
  | .seq _ => true
  | _ => false

/-- Anything but a sequence, or a sequence without sequences in it that does not have just one item. -/
def isCanonical : Value → Bool
  | .seq vs => vs.length != 1 && vs.all (!·.isSeq)
  | _ => true

section

variable {v w : Value} {vs ws : List Value}

theorem items_of_single (single : v.isSeq = false) : v.items = [v] := by
  cases v with
  | seq vs => cases single
  | _ => rfl

theorem isCanonical_of_single (single : v.isSeq = false) : v.isCanonical = true := by
  cases v with
  | seq vs => cases single
  | _ => rfl

theorem isSeq_of_mem_items (canonical : v.isCanonical = true) (mem : w ∈ v.items) :
    w.isSeq = false := by
  cases v with
  | seq vs =>
    simp only [isCanonical, Bool.and_eq_true, List.all_eq_true] at canonical
    simpa using canonical.2 w mem
  | _ =>
    rw [List.mem_singleton.1 mem]
    rfl

section

variable (all : ∀ v ∈ vs, v.isCanonical = true)

include all

theorem isSeq_of_mem_flatMap_items (mem : w ∈ vs.flatMap items) : w.isSeq = false := by
  obtain ⟨v, among, mem⟩ := List.mem_flatMap.1 mem
  exact isSeq_of_mem_items (all v among) mem

theorem items_ofItems : (ofItems vs).items = vs.flatMap items := by
  unfold ofItems
  split
  · rename_i v single
    rw [single]
    exact items_of_single (isSeq_of_mem_flatMap_items all (by simp [single]))
  · rfl

theorem isCanonical_ofItems : (ofItems vs).isCanonical = true := by
  unfold ofItems
  split
  · rename_i v single
    exact isCanonical_of_single (isSeq_of_mem_flatMap_items all (by simp [single]))
  · rename_i flat several
    simp only [isCanonical, Bool.and_eq_true, List.all_eq_true]
    refine ⟨bne_iff_ne.2 fun one => ?_, fun w mem => by simp [isSeq_of_mem_flatMap_items all mem]⟩
    obtain ⟨v, single⟩ := List.length_eq_one_iff.1 one
    exact several v single

end

theorem ofItems_pair (first : ∀ v ∈ vs, v.isCanonical = true) (second : ∀ w ∈ ws, w.isCanonical = true) :
    ofItems [ofItems vs, ofItems ws] = ofItems (vs ++ ws) := by
  have same : [ofItems vs, ofItems ws].flatMap items = (vs ++ ws).flatMap items := by
    simp [items_ofItems first, items_ofItems second]
  unfold ofItems at same ⊢
  rw [same]

end

/-- A value, its items, and what the function items among them have captured or name as constants. -/
inductive Holds : Value → Value → Prop
  | self {v} : Holds v v
  | member {vs v u} : v ∈ vs → Holds v u → Holds (.seq vs) u
  | captured {f params captured body scope q u} : f.code = .closure params captured body scope →
    q ∈ captured → Holds q.2 u → Holds (.func f) u
  | constant {f params captured body scope v u} : f.code = .closure params captured body scope →
    .value v ∈ body.nodes → Holds v u → Holds (.func f) u

def Canonical (v : Value) : Prop := ∀ u, v.Holds u → u.isCanonical = true

end Value

def Expr.Canonical (e : Expr) : Prop := ∀ v, .value v ∈ e.nodes → v.Canonical

def FuncItem.Canonical (f : FuncItem) : Prop :=
  ∀ params captured body scope, f.code = .closure params captured body scope →
    (∀ q ∈ captured, q.2.Canonical) ∧ body.Canonical

namespace Value

variable {v : Value} {vs : List Value} {f : FuncItem}

theorem Canonical.isCanonical (h : v.Canonical) : v.isCanonical = true := h v .self

@[simp] theorem canonical_int {i : Int64} : (Value.int i).Canonical := by
  rintro _ ⟨⟩
  rfl

@[simp] theorem canonical_bool {b : Bool} : (Value.bool b).Canonical := by
  rintro _ ⟨⟩
  rfl

@[simp] theorem canonical_str {s : String} : (Value.str s).Canonical := by
  rintro _ ⟨⟩
  rfl

theorem canonical_func : (Value.func f).Canonical ↔ f.Canonical := by
  constructor
  · exact fun h params captured body scope code =>
      ⟨fun q mem u holds => h u (.captured code mem holds),
      fun v mem u holds => h u (.constant code mem holds)⟩
  · intro h u holds
    cases holds with
    | self => rfl
    | captured code mem holds => exact (h _ _ _ _ code).1 _ mem u holds
    | constant code mem holds => exact (h _ _ _ _ code).2 _ mem u holds

theorem canonical_seq :
    (Value.seq vs).Canonical ↔ (Value.seq vs).isCanonical = true ∧ ∀ v ∈ vs, v.Canonical := by
  refine ⟨fun h => ⟨h _ .self, fun v mem u holds => h u (.member mem holds)⟩, fun ⟨own, all⟩ u holds => ?_⟩
  cases holds with
  | self => exact own
  | member mem holds => exact all _ mem u holds

@[simp] theorem canonical_empty : Value.empty.Canonical := canonical_seq.2 ⟨rfl, nofun⟩

theorem Canonical.items (h : v.Canonical) {w : Value} (mem : w ∈ v.items) : w.Canonical := by
  cases v with
  | seq vs => exact (canonical_seq.1 h).2 w mem
  | _ => exact List.mem_singleton.1 mem ▸ h

theorem canonical_ofItems (all : ∀ v ∈ vs, v.Canonical) : (ofItems vs).Canonical := by
  have shallow := isCanonical_ofItems fun v mem => (all v mem).isCanonical
  have flat : ∀ w ∈ vs.flatMap Value.items, w.Canonical := by
    intro w mem
    obtain ⟨v, among, mem⟩ := List.mem_flatMap.1 mem
    exact (all v among).items mem
  unfold ofItems at shallow ⊢
  split
  · rename_i v single
    exact flat v (by simp [single])
  · rename_i several
    simp only at shallow
    exact canonical_seq.2 ⟨shallow, flat⟩

theorem Canonical.asFunc {span : Span} (h : v.Canonical) (found : v.asFunc span = .ok f) :
    f.Canonical := by
  cases v with
  | func g =>
    cases found
    exact canonical_func.1 h
  | _ => cases found

theorem canonical_ofName (f : FuncItem) : (ofName f).Canonical := by
  unfold ofName
  split
  · exact canonical_str
  · exact canonical_empty

end Value

namespace Expr

variable {e p : Expr}

theorem Canonical.part (h : e.Canonical) (mem : p ∈ e.parts) : p.Canonical :=
  fun v among => h v (nodes_subset_of_mem_parts mem among)

/-- The constants of an expression are those of its parts, unless it is one itself. -/
theorem canonical_iff_parts (code : ∀ v, e ≠ .value v) :
    e.Canonical ↔ ∀ p ∈ e.parts, p.Canonical := by
  refine ⟨fun h p mem => h.part mem, fun parts v mem => ?_⟩
  rw [nodes_eq e] at mem
  rcases List.mem_cons.1 mem with same | mem
  · exact absurd same.symm (code v)
  · obtain ⟨p, among, mem⟩ := List.mem_flatMap.1 mem
    exact parts p among v mem

theorem canonical_value {v : Value} : (Expr.value v).Canonical ↔ v.Canonical := by
  refine ⟨fun h => h v (mem_nodes_self _), fun h w mem => ?_⟩
  cases List.mem_singleton.1 mem
  exact h

theorem canonical_error (err : QueryError) : (Expr.error err).Canonical :=
  (canonical_iff_parts (by nofun)).2 nofun

theorem canonical_var (ref : VarRef) : (Expr.var ref).Canonical := (canonical_iff_parts (by nofun)).2 nofun

theorem value_mem_nodes_iff {v : Value} : .value v ∈ e.nodes ↔ Kind.value v ∈ e.kinds := by
  unfold kinds
  rw [List.mem_map]
  refine ⟨fun mem => ⟨_, mem, rfl⟩, ?_⟩
  rintro ⟨n, mem, same⟩
  cases n <;> simp only [kind, reduceCtorEq, Kind.value.injEq] at same
  exact same ▸ mem

theorem Canonical.of_kinds {e' : Expr} (h : e.Canonical)
    (kinds : ∀ v, Kind.value v ∈ e'.kinds → Kind.value v ∈ e.kinds) : e'.Canonical :=
  fun v mem => h v (value_mem_nodes_iff.2 (kinds v (value_mem_nodes_iff.1 mem)))

theorem Canonical.keepTail (h : e.Canonical) (tail : Bool) : (Compile.keepTail tail e).Canonical :=
  h.of_kinds fun v mem => by rwa [kinds_keepTail] at mem

theorem Canonical.mapSites (h : e.Canonical) (f : CallSite → CallSite) (g : DynamicSite → DynamicSite) :
    (e.mapSites f g).Canonical := by
  intro v mem
  rw [nodes_mapSites] at mem
  obtain ⟨n, mem, same⟩ := List.mem_map.1 mem
  cases n <;> simp only [Expr.mapSites, reduceCtorEq, Expr.value.injEq] at same
  exact same ▸ h _ mem

theorem Canonical.rewrapLiteral (h : e.Canonical) (site : LiteralSite) :
    (Compile.rewrapLiteral site e).Canonical :=
  h.of_kinds fun v mem => by rwa [kinds_rewrapLiteral] at mem

theorem Canonical.copied {n : Nat} {e' : Expr} (h : e.Canonical) (copied : e.Copied n e') :
    e'.Canonical := by
  refine h.of_kinds fun v mem => (copied.kinds _ mem).resolve_right ?_
  rintro ⟨id, other, -⟩
  cases other

theorem Canonical.of_value? {v : Value} (h : e.Canonical) (found : e.value? = some v) : v.Canonical := by
  cases e with
  | value w =>
    cases found
    exact canonical_value.1 h
  | _ => cases found

theorem canonical_of_values? {es : List Expr} {vs : List Value} (all : ∀ e ∈ es, e.Canonical)
    (found : values? es = some vs) : ∀ v ∈ vs, v.Canonical := by
  induction es generalizing vs with
  | nil =>
    cases found
    exact nofun
  | cons e es ih =>
    simp only [values?, List.mapM_cons, Option.bind_eq_bind, Option.pure_def,
      Option.bind_eq_some_iff] at found
    obtain ⟨v, hv, vs', rest, same⟩ := found
    cases same
    have head := (all e (by simp)).of_value? hv
    exact List.forall_mem_cons.2 ⟨head, ih (fun x hx => all x (by simp [hx])) rest⟩

end Expr

theorem ArithOp.canonical_of_apply {op : ArithOp} {lhs rhs v : Value} {span : Span}
    (computed : op.apply lhs rhs span = .ok v) : v.Canonical := by
  rcases op.apply_cases lhs rhs span with h | ⟨e, h⟩ | ⟨i, h⟩ <;> rw [h] at computed <;> cases computed
  · exact Value.canonical_empty
  · exact Value.canonical_int

namespace Expr

theorem canonical_ofResult {result : Except QueryError Value}
    (value : ∀ v, result = .ok v → v.Canonical) : (ofResult result).Canonical := by
  cases result with
  | ok v => exact canonical_value.2 (value v rfl)
  | error err => exact canonical_error err

variable {span : Span}

theorem Canonical.foldBranch {cond yes no : Expr} (h : (Expr.branch cond yes no span).Canonical) :
    (Expr.foldBranch cond yes no span).Canonical := by
  unfold Expr.foldBranch
  split
  · split
    · exact h.part (by simp [parts])
    · exact h.part (by simp [parts])
    · exact h
  · exact h

theorem Canonical.foldArith {op : ArithOp} {lhs rhs : Expr} (h : (Expr.arith op lhs rhs span).Canonical) :
    (Expr.foldArith op lhs rhs span).Canonical := by
  unfold Expr.foldArith
  split
  · exact canonical_ofResult fun v => ArithOp.canonical_of_apply
  · exact h

theorem Canonical.foldCompare {op : CompareOp} {lhs rhs : Expr}
    (h : (Expr.compare op lhs rhs span).Canonical) : (Expr.foldCompare op lhs rhs span).Canonical := by
  unfold Expr.foldCompare
  split
  · rename_i l r _ _
    cases op.apply l r span with
    | error err => exact canonical_error err
    | ok b => exact canonical_value.2 Value.canonical_bool
  · exact h

theorem Canonical.foldSeq {items : List Expr} (h : (Expr.seq items).Canonical) :
    (Expr.foldSeq items).Canonical := by
  unfold Expr.foldSeq
  split
  · rename_i vs found
    exact canonical_value.2 (Value.canonical_ofItems (canonical_of_values? (fun e mem => h.part mem) found))
  · exact h

theorem Canonical.foldTreat {e : Expr} {type : SeqType} (h : (Expr.treat e type span).Canonical) :
    (Expr.foldTreat e type span).Canonical := by
  have inner : e.Canonical := h.part (by simp [parts])
  unfold Expr.foldTreat
  split
  · split
    · exact inner
    · exact canonical_error _
  · split
    · exact inner
    · exact h

theorem Canonical.foldBuiltin {function : Builtin} {args : List Expr}
    (h : (Expr.builtin function args span).Canonical) :
    (Expr.foldBuiltin function args span).Canonical := by
  have ofMap {f : FuncItem → Value} {v : Value} (each : ∀ g, (f g).Canonical) :
      (ofResult ((v.asFunc span).map f)).Canonical := by
    cases v.asFunc span with
    | error err => exact canonical_error err
    | ok g => exact canonical_value.2 (each g)
  unfold Expr.foldBuiltin
  split
  · exact canonical_value.2 Value.canonical_int
  · exact ofMap fun _ => Value.canonical_int
  · exact ofMap Value.canonical_ofName
  · exact h

theorem Canonical.coerce {e : Expr} (h : e.Canonical) (declared : Option SeqType) (span : Span) :
    (e.coerce declared span).Canonical := by
  unfold Expr.coerce
  split
  · split
    · exact h
    · exact (canonical_iff_parts (by nofun)).2 (List.forall_mem_singleton.2 h)
  · exact h

end Expr

theorem Closure.canonical_toItem {c : Closure} {captured : List (Variable × Value)}
    (body : c.body.Canonical) (values : ∀ q ∈ captured, q.2.Canonical) (supply : Supply) :
    ((c.toItem captured).run supply).1.Canonical := by
  rintro _ _ _ _ ⟨⟩
  exact ⟨values, body⟩

namespace PartialApplication

theorem canonical_arrange (holes : List Nat) {params : List Expr} (all : ∀ e ∈ params, e.Canonical)
    (pos count : Nat) (supplied : List Value) (values : ∀ v ∈ supplied, v.Canonical) :
    ∀ e ∈ arrange holes params pos count supplied, e.Canonical := by
  induction count generalizing pos supplied with
  | zero => exact nofun
  | succ count ih =>
    unfold arrange
    split
    · rename_i param found
      obtain ⟨i, -, hi⟩ := Option.bind_eq_some_iff.1 found
      exact List.forall_mem_cons.2 ⟨all _ (List.mem_of_getElem? hi), ih _ _ values⟩
    · refine List.forall_mem_cons.2 ⟨Expr.canonical_value.2 ?_,
        ih _ _ fun v mem => values v (List.mem_of_mem_tail mem)⟩
      cases supplied with
      | nil => exact Value.canonical_empty
      | cons v vs => exact values v (by simp)

theorem canonical_make {item : FuncItem} {supplied : List Value} (hitem : item.Canonical)
    (values : ∀ v ∈ supplied, v.Canonical) (holes : List Nat) (span : Span) :
    Yields (make item supplied holes span) (·.Canonical) := by
  have opened : Yields (liftSupply (openVariables item {} 0 holes)) fun _ => True :=
    Yields.liftSupply fun supply => ⟨openVariables_grows item 0 holes {} supply, trivial⟩
  refine Yields.bind opened fun scope _ => ?_
  refine Yields.bind Yields.freshOrigin fun origin _ => Yields.bind Yields.freshItem fun id _ => ?_
  refine Yields.bind (Yields.ofExcept fun _ _ => trivial) fun type (_ : True) => Yields.pure ?_
  rintro _ _ _ _ ⟨⟩
  refine ⟨nofun, (Expr.canonical_iff_parts (by nofun)).2 (List.forall_mem_cons.2 ⟨?_, ?_⟩)⟩
  · exact Expr.canonical_value.2 (Value.canonical_func.2 hitem)
  · exact canonical_arrange holes (List.forall_mem_map.2 fun _ _ => Expr.canonical_var _) _ _ _ values

end PartialApplication

end QueryFunctions
