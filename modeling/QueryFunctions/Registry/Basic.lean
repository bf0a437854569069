import QueryFunctions.Expr.Traversal
import QueryFunctions.Name.Suggestion
import QueryFunctions.Options.Basic

/-! The functions that a query declares or refers to, one entry for each name and arity. A
reference may come before its declaration: it makes an undefined entry, which the declaration
fills, so the identity that call sites hold never changes. -/
namespace QueryFunctions

/-- How far the body of a function has been compiled. -/
inductive CompileStage where
  | pending
  | compiling
  | compiled
  /-- Every later request raises the same error. -/
  | failed (error : QueryError)
deriving DecidableEq, Repr

structure Entry where
  name : String
  arity : Nat
  params : List VarId := []
  /-- The declared result type. -/
  declared : Option SeqType := none
  annotations : Annotations := {}
  /-- Absent while the function is undefined, being compiled, or failed to compile. -/
  body : Option Expr := none
  /-- Empty while the function is being compiled. -/
  scope : Scope := {}
  span : Span := .synthetic
  /-- Where the function is called or named. -/
  calls : List Span := []
  defined : Bool := false
  stage : CompileStage := .pending
  /-- Properties of the compiled body. -/
  flags : Flags := {}
  recursive : Bool := false

namespace Entry

def paramVariables (e : Entry) : List Variable := e.params.filterMap e.scope.find?

def paramTypes (e : Entry) : List SeqType := e.paramVariables.map (·.declared.getD .item)

/-- The declared result type, or that of the compiled body. -/
def retType (e : Entry) : SeqType :=
  match e.declared, e.body with
  | some type, _ => type
  | none, some body => if e.stage = .compiled then body.inferredType else .item
  | none, none => .item

def funcType (e : Entry) : FuncType := ⟨e.paramTypes, e.retType, e.annotations.updating⟩

/-- Where the function is first mentioned. -/
def firstCall (e : Entry) : Span := e.calls.head?.getD .synthetic

/-- A call of the function may be replaced by its body. -/
def inlinable (e : Entry) (o : Options) : Bool :=
  e.stage = .compiled && !e.recursive && !e.annotations.updating && !e.flags.ndt &&
    !e.flags.ctx && e.body.any (·.size ≤ e.annotations.inlineLimit.getD o.inlineLimit)

end Entry

structure Registry where
  entries : List Entry := []
  /-- Where the entry of a name and an arity is. -/
  index : List ((String × Nat) × FuncId) := []
deriving Inhabited

/-- What a declaration says. Its arity is the number of its parameters. -/
structure Declaration where
  name : String
  params : List VarId
  declared : Option SeqType
  annotations : Annotations
  body : Expr
  scope : Scope
  span : Span

namespace Registry

def find? (r : Registry) (id : FuncId) : Option Entry := r.entries[id.index]?

def update (r : Registry) (id : FuncId) (f : Entry → Entry) : Registry :=
  { r with entries := r.entries.modify id.index f }

def lookup? (r : Registry) (name : String) (arity : Nat) : Option FuncId :=
  r.index.lookup (name, arity)

def add (r : Registry) (name : String) (arity : Nat) : Registry where
  entries := r.entries ++ [{ name, arity }]
  index := ((name, arity), ⟨r.entries.length⟩) :: r.index

/-- The entry of `name` and `arity`, made if there is none. -/
def entry (r : Registry) (name : String) (arity : Nat) : FuncId × Registry :=
  match r.lookup? name arity with
  | some id => (id, r)
  | none => (⟨r.entries.length⟩, r.add name arity)

/-- The entry of `name` and `arity`, with `span` as one more place that mentions it. -/
def reference (r : Registry) (name : String) (arity : Nat) (span : Span) : FuncId × Registry :=
  let (id, r) := r.entry name arity
  (id, r.update id fun e => { e with calls := e.calls ++ [span] })

/-- Defines a function. A second definition is refused and leaves the first as it is. -/
def declare (r : Registry) (d : Declaration) : Except QueryError FuncId × Registry :=
  let (id, r) := r.entry d.name d.params.length
  if (r.find? id).any (·.defined) then
    (.error (.duplicate d.name d.params.length d.span), r)
  else
    (.ok id, r.update id fun e =>
      { e with
        params := d.params, declared := d.declared, annotations := d.annotations
        body := some d.body, scope := d.scope, span := d.span, defined := true })

/-- Names of defined functions, in order of first mention. -/
def names (r : Registry) : List String := (r.entries.filter (·.defined)).map (·.name)

def isUpdating (r : Registry) (id : FuncId) : Bool := (r.find? id).any (·.annotations.updating)

def flagsOf (r : Registry) (id : FuncId) : Option Flags := (r.find? id).map (·.flags)

theorem lookup?_empty (name : String) (arity : Nat) :
    ({} : Registry).lookup? name arity = none := rfl

theorem lookup?_add (r : Registry) (name name' : String) (arity arity' : Nat) :
    (r.add name arity).lookup? name' arity' =
      if name' = name ∧ arity' = arity then some ⟨r.entries.length⟩ else r.lookup? name' arity' := by
  unfold lookup? add
  rw [List.lookup_cons]
  by_cases same : name' = name ∧ arity' = arity
  · simp [same]
  · have other : ((name', arity') == (name, arity)) = false := by simpa using same
    rw [other, if_neg same]

theorem find?_add (r : Registry) (name : String) (arity : Nat) (id : FuncId) :
    (r.add name arity).find? id =
      if id.index = r.entries.length then some { name, arity } else r.find? id := by
  unfold find? add
  split
  · rename_i last
    rw [last, List.getElem?_concat_length]
  · rename_i other
    by_cases before : id.index < r.entries.length
    · exact List.getElem?_append_left before
    · rw [List.getElem?_eq_none (Nat.le_of_not_lt before), List.getElem?_eq_none]
      rw [List.length_append, List.length_singleton]
      omega

theorem lookup?_entry (r : Registry) (name : String) (arity : Nat) :
    (r.entry name arity).2.lookup? name arity = some (r.entry name arity).1 := by
  unfold entry
  cases known : r.lookup? name arity with
  | some id => exact known
  | none => rw [lookup?_add, if_pos ⟨rfl, rfl⟩]

/-- The index has each entry under its name and arity, and has nothing else. -/
structure InStep (r : Registry) : Prop where
  lookup?_iff (name : String) (arity : Nat) (id : FuncId) : r.lookup? name arity = some id ↔
    ∃ e, r.find? id = some e ∧ e.name = name ∧ e.arity = arity

theorem inStep_empty : InStep {} where
  lookup?_iff := by simp [lookup?, find?]

namespace InStep

variable {r : Registry}

theorem add (h : r.InStep) {name : String} {arity : Nat} (absent : r.lookup? name arity = none) :
    (r.add name arity).InStep where
  lookup?_iff name' arity' id := by
    rw [lookup?_add, find?_add]
    by_cases same : name' = name ∧ arity' = arity
    · obtain ⟨rfl, rfl⟩ := same
      rw [if_pos ⟨rfl, rfl⟩]
      constructor
      · rintro ⟨⟩
        exact ⟨_, if_pos rfl, rfl, rfl⟩
      · rintro ⟨e, found, named⟩
        by_cases last : id.index = r.entries.length
        · rw [← last]
        · rw [if_neg last] at found
          cases absent.symm.trans ((h.lookup?_iff name' arity' id).2 ⟨e, found, named⟩)
    · rw [if_neg same, h.lookup?_iff]
      by_cases last : id.index = r.entries.length
      · have none : r.find? id = none := List.getElem?_eq_none (Nat.le_of_eq last.symm)
        rw [if_pos last, none]
        constructor
        · rintro ⟨e, found, -⟩
          cases found
        · rintro ⟨e, found, named⟩
          obtain rfl := Option.some.inj found
          exact absurd ⟨named.1.symm, named.2.symm⟩ same
      · rw [if_neg last]

theorem entry (h : r.InStep) (name : String) (arity : Nat) : (r.entry name arity).2.InStep := by
  unfold Registry.entry
  cases known : r.lookup? name arity with
  | some id => exact h
  | none => exact h.add known

/-- What is written into an entry leaves its name and its arity as they are. -/
theorem update (h : r.InStep) (id : FuncId) {f : Entry → Entry}
    (kept : ∀ e, (f e).name = e.name ∧ (f e).arity = e.arity) : (r.update id f).InStep where
  lookup?_iff name arity id' := by
    rw [show (r.update id f).lookup? name arity = r.lookup? name arity from rfl, h.lookup?_iff]
    unfold find? Registry.update
    rw [List.getElem?_modify]
    cases r.entries[id'.index]? with
    | none => simp
    | some e => by_cases same : id.index = id'.index <;> simp [same, kept e]

end InStep

end Registry

end QueryFunctions
