import Mathlib.Data.List.Induction
import Mathlib.Data.List.Nodup
import QueryFunctions.Registry.Check

/-! What a registry is after any references and declarations. It has one entry for each key that
was mentioned, in order of first mention, and the entry of a key says what the requests said about
it: where it was referred to, and the first of its declarations. -/
namespace QueryFunctions

namespace Declaration

def key (d : Declaration) : String × Nat := (d.name, d.params.length)

def fill (d : Declaration) (e : Entry) : Entry :=
  { e with
    params := d.params, declared := d.declared, annotations := d.annotations
    body := some d.body, scope := d.scope, span := d.span, defined := true }

/-- What is known of a function from its declaration and the places that mention it. -/
def entry (d : Declaration) (calls : List Span) : Entry :=
  d.fill { name := d.name, arity := d.params.length, calls := calls }

end Declaration

namespace Registry

inductive Request where
  | reference (name : String) (arity : Nat) (span : Span)
  | declare (d : Declaration)

namespace Request

def key : Request → String × Nat
  | .reference name arity _ => (name, arity)
  | .declare d => d.key

def place? (key : String × Nat) : Request → Option Span
  | .reference name arity span => if (name, arity) = key then some span else none
  | .declare _ => none

def declaration? (key : String × Nat) : Request → Option Declaration
  | .reference _ _ _ => none
  | .declare d => if d.key = key then some d else none

theorem place?_eq_none {request : Request} {key : String × Nat} (other : request.key ≠ key) :
    request.place? key = none := by
  cases request with
  | reference => exact if_neg other
  | declare => rfl

theorem declaration?_eq_none {request : Request} {key : String × Nat} (other : request.key ≠ key) :
    request.declaration? key = none := by
  cases request with
  | reference => rfl
  | declare => exact if_neg other

theorem declaration?_eq_some_iff {request : Request} {key : String × Nat} {d : Declaration} :
    request.declaration? key = some d ↔ request = .declare d ∧ request.key = key := by
  cases request with
  | reference => simp [declaration?]
  | declare d' =>
    simp only [declaration?, Option.ite_none_right_eq_some, Option.some.injEq, declare.injEq]
    exact and_comm

end Request

def serve (r : Registry) : Request → Except QueryError FuncId × Registry
  | .reference name arity span =>
    let (id, r) := r.reference name arity span
    (.ok id, r)
  | .declare d => r.declare d

/-- A fresh registry after some requests, in order. -/
def after (requests : List Request) : Registry :=
  requests.foldl (fun r request => (r.serve request).2) {}

theorem after_append (requests later : List Request) :
    after (requests ++ later) = later.foldl (fun r request => (r.serve request).2) (after requests) :=
  List.foldl_append

theorem after_snoc (requests : List Request) (request : Request) :
    after (requests ++ [request]) = ((after requests).serve request).2 :=
  after_append requests [request]

def mention (keys : List (String × Nat)) (key : String × Nat) : List (String × Nat) :=
  if key ∈ keys then keys else keys ++ [key]

section Mention

variable {keys : List (String × Nat)} {key k : String × Nat}

theorem mem_mention : k ∈ mention keys key ↔ k ∈ keys ∨ k = key := by
  unfold mention
  split <;> simp_all

theorem mention_of_mem (known : key ∈ keys) : mention keys key = keys := if_pos known

theorem nodup_mention (distinct : keys.Nodup) : (mention keys key).Nodup := by
  unfold mention
  split
  · exact distinct
  · rename_i fresh
    exact distinct.append (List.nodup_singleton key) (by simpa using fresh)

theorem prefix_mention : keys <+: mention keys key := by
  unfold mention
  split
  · exact List.prefix_rfl
  · exact List.prefix_append ..

end Mention

/-- A registry as a table: its keys, and for each of them an entry. -/
structure Tabulates (r : Registry) (keys : List (String × Nat)) (table : String × Nat → Entry) :
    Prop where
  entries : r.entries = keys.map table
  inStep : r.InStep
  distinct : keys.Nodup
  key : ∀ k, ((table k).name, (table k).arity) = k

namespace Tabulates

variable {r : Registry} {keys : List (String × Nat)} {table : String × Nat → Entry}
  {key : String × Nat} {id : FuncId}

theorem find?_eq (h : r.Tabulates keys table) : r.find? id = keys[id.index]?.map table := by
  rw [find?, h.entries, List.getElem?_map]

theorem lookup?_eq_some_iff (h : r.Tabulates keys table) :
    r.lookup? key.1 key.2 = some id ↔ keys[id.index]? = some key := by
  rw [h.inStep.lookup?_iff, h.find?_eq]
  constructor
  · rintro ⟨e, found, name, arity⟩
    obtain ⟨k, here, rfl⟩ := Option.map_eq_some_iff.1 found
    rw [here, ← h.key k, name, arity]
  · intro here
    have named := h.key key
    exact ⟨table key, by rw [here]; rfl, congrArg Prod.fst named, congrArg Prod.snd named⟩

theorem lookup?_eq_none_iff (h : r.Tabulates keys table) :
    r.lookup? key.1 key.2 = none ↔ key ∉ keys := by
  rw [Option.eq_none_iff_forall_ne_some, List.mem_iff_getElem?]
  simp only [ne_eq, h.lookup?_eq_some_iff, not_exists]
  exact ⟨fun absent i => absent ⟨i⟩, fun absent id => absent id.index⟩

theorem entry (h : r.Tabulates keys table) (key : String × Nat)
    (blank : key ∉ keys → table key = { name := key.1, arity := key.2 }) :
    (r.entry key.1 key.2).2.Tabulates (mention keys key) table ∧
      (mention keys key)[(r.entry key.1 key.2).1.index]? = some key := by
  unfold Registry.entry
  cases known : r.lookup? key.1 key.2 with
  | some id =>
    have here := h.lookup?_eq_some_iff.mp known
    rw [mention_of_mem (List.mem_of_getElem? here)]
    exact ⟨h, here⟩
  | none =>
    have fresh := h.lookup?_eq_none_iff.mp known
    refine ⟨⟨?_, h.inStep.add known, nodup_mention h.distinct, h.key⟩, ?_⟩
    · simp [mention, fresh, add, h.entries, blank fresh]
    · simp [mention, fresh, h.entries]

theorem update (h : r.Tabulates keys table) (here : keys[id.index]? = some key) {f : Entry → Entry}
    {table' : String × Nat → Entry} (changed : table' key = f (table key))
    (kept : ∀ k, k ≠ key → table' k = table k)
    (named : ∀ e, (f e).name = e.name ∧ (f e).arity = e.arity) :
    (r.update id f).Tabulates keys table' where
  entries := by
    refine List.ext_getElem? fun i => ?_
    rw [Registry.update, h.entries, List.getElem?_modify, List.getElem?_map, List.getElem?_map]
    by_cases at_key : id.index = i
    · subst at_key
      simp [here, changed]
    · cases other : keys[i]? with
      | none => rfl
      | some k =>
        have apart : k ≠ key := by
          rintro rfl
          obtain ⟨bound, -⟩ := List.getElem?_eq_some_iff.mp here
          exact at_key ((List.getElem?_inj bound h.distinct).mp (here.trans other.symm))
        simp [at_key, kept k apart]
  inStep := h.inStep.update id named
  distinct := h.distinct
  key k := by
    by_cases at_key : k = key
    · subst at_key
      rw [changed, (named _).1, (named _).2, h.key]
    · rw [kept k at_key, h.key]

end Tabulates

def keys (requests : List Request) : List (String × Nat) :=
  requests.foldl (fun keys request => mention keys request.key) []

/-- What requests say about a key. The first declaration counts. -/
def recorded (requests : List Request) (key : String × Nat) : Entry :=
  let calls := requests.filterMap (·.place? key)
  match requests.findSome? (·.declaration? key) with
  | some d => d.entry calls
  | none => { name := key.1, arity := key.2, calls := calls }

section Recorded

variable {requests : List Request} {key : String × Nat}

theorem keys_snoc (request : Request) :
    keys (requests ++ [request]) = mention (keys requests) request.key := by
  simp [keys]

theorem keys_prefix (requests later : List Request) : keys requests <+: keys (requests ++ later) := by
  induction later using List.reverseRecOn with
  | nil => simp
  | append_singleton later request ih =>
    rw [← List.append_assoc, keys_snoc]
    exact ih.trans prefix_mention

theorem mem_keys : key ∈ keys requests ↔ ∃ request ∈ requests, request.key = key := by
  induction requests using List.reverseRecOn with
  | nil => simp [keys]
  | append_singleton requests request ih =>
    rw [keys_snoc, mem_mention, ih]
    simp [or_and_right, exists_or, eq_comm]

theorem recorded_calls : (recorded requests key).calls = requests.filterMap (·.place? key) := by
  unfold recorded
  split <;> rfl

theorem recorded_defined :
    (recorded requests key).defined = (requests.findSome? (·.declaration? key)).isSome := by
  unfold recorded
  split <;> rename_i found <;> rw [found] <;> rfl

theorem recorded_key (requests : List Request) (key : String × Nat) :
    ((recorded requests key).name, (recorded requests key).arity) = key := by
  unfold recorded
  split
  · rename_i d found
    obtain ⟨request, -, same⟩ := List.exists_of_findSome?_eq_some found
    obtain ⟨rfl, same⟩ := Request.declaration?_eq_some_iff.mp same
    exact same
  · rfl

theorem recorded_of_not_mem (fresh : key ∉ keys requests) :
    recorded requests key = { name := key.1, arity := key.2 } := by
  have other : ∀ request ∈ requests, request.key ≠ key := fun request member same =>
    fresh (mem_keys.mpr ⟨request, member, same⟩)
  have calls : requests.filterMap (·.place? key) = [] :=
    List.filterMap_eq_nil_iff.mpr fun request member =>
      Request.place?_eq_none (other request member)
  have undeclared : requests.findSome? (·.declaration? key) = none :=
    List.findSome?_eq_none_iff.mpr fun request member =>
      Request.declaration?_eq_none (other request member)
  simp only [recorded, calls, undeclared]

theorem mem_keys_of_defined (defined : (recorded requests key).defined = true) :
    key ∈ keys requests := by
  by_contra fresh
  simp [recorded_of_not_mem fresh] at defined

theorem recorded_of_undefined (undefined : (recorded requests key).defined = false) :
    recorded requests key =
      { name := key.1, arity := key.2, calls := (recorded requests key).calls } := by
  rw [recorded_defined, Option.isSome_eq_false_iff, Option.isNone_iff_eq_none] at undefined
  rw [recorded_calls]
  simp only [recorded, undefined]

theorem recorded_snoc_of_ne {request : Request} (other : key ≠ request.key) :
    recorded (requests ++ [request]) key = recorded requests key := by
  simp [recorded, Request.place?_eq_none other.symm, Request.declaration?_eq_none other.symm]

theorem recorded_snoc_reference (name : String) (arity : Nat) (span : Span) :
    recorded (requests ++ [.reference name arity span]) (name, arity) =
      { recorded requests (name, arity) with
        calls := (recorded requests (name, arity)).calls ++ [span] } := by
  simp only [recorded, List.filterMap_append, List.findSome?_append]
  cases requests.findSome? (·.declaration? (name, arity)) with
  | none => simp [Request.place?, Request.declaration?]
  | some d => simp [Request.place?, Declaration.entry, Declaration.fill]

theorem recorded_snoc_declare (d : Declaration) :
    recorded (requests ++ [.declare d]) d.key =
      if (recorded requests d.key).defined then
        recorded requests d.key
      else d.entry (recorded requests d.key).calls := by
  simp only [recorded_defined, recorded_calls]
  simp only [recorded, List.filterMap_append, List.findSome?_append]
  cases requests.findSome? (·.declaration? d.key) with
  | none => simp [Request.place?, Request.declaration?]
  | some d' => simp [Request.place?]

end Recorded

section Serve

variable {r : Registry} {requests : List Request}

theorem find?_entered (h : r.Tabulates (keys requests) (recorded requests)) (key : String × Nat) :
    (r.entry key.1 key.2).2.find? (r.entry key.1 key.2).1 = some (recorded requests key) := by
  obtain ⟨entered, here⟩ := h.entry key recorded_of_not_mem
  rw [entered.find?_eq, here]
  rfl

theorem declare_of_defined (h : r.Tabulates (keys requests) (recorded requests)) {d : Declaration}
    (defined : (recorded requests d.key).defined = true) :
    r.declare d = (.error (.duplicate d.name d.params.length d.span), r) := by
  obtain ⟨i, here⟩ := List.mem_iff_getElem?.mp (mem_keys_of_defined defined)
  have known : r.lookup? d.name d.params.length = some ⟨i⟩ := h.lookup?_eq_some_iff.mpr here
  have same : r.entry d.name d.params.length = (⟨i⟩, r) := by
    simp only [Registry.entry, known]
  have found : r.find? ⟨i⟩ = some (recorded requests d.key) := by
    rw [h.find?_eq, here]
    rfl
  simp only [Registry.declare, same, found, defined, Option.any_some, if_true]

theorem declare_of_undefined (h : r.Tabulates (keys requests) (recorded requests))
    {d : Declaration} (undefined : (recorded requests d.key).defined = false) :
    r.declare d = (.ok (r.entry d.key.1 d.key.2).1,
      (r.entry d.key.1 d.key.2).2.update (r.entry d.key.1 d.key.2).1 d.fill) := by
  have found : ((r.entry d.name d.params.length).2.find? (r.entry d.name d.params.length).1) =
      some (recorded requests d.key) := find?_entered h d.key
  simp only [Registry.declare, found, undefined, Option.any_some, Bool.false_eq_true, if_false]
  rfl

theorem serve_tabulates (h : r.Tabulates (keys requests) (recorded requests)) (request : Request) :
    (r.serve request).2.Tabulates (keys (requests ++ [request]))
      (recorded (requests ++ [request])) := by
  obtain ⟨entered, here⟩ := h.entry request.key recorded_of_not_mem
  rw [keys_snoc]
  cases request with
  | reference name arity span =>
    refine entered.update here ?_ (fun k other => ?_) ?_
    · exact recorded_snoc_reference name arity span
    · exact recorded_snoc_of_ne other
    · exact fun e => ⟨rfl, rfl⟩
  | declare d =>
    cases defined : (recorded requests d.key).defined with
    | true =>
      have same : recorded (requests ++ [.declare d]) = recorded requests := by
        funext k
        by_cases at_key : k = d.key
        · rw [at_key, recorded_snoc_declare, if_pos defined]
        · exact recorded_snoc_of_ne at_key
      rw [serve, declare_of_defined h defined, same]
      exact (mention_of_mem (mem_keys_of_defined defined)).symm ▸ h
    | false =>
      rw [serve, declare_of_undefined h defined]
      refine entered.update here ?_ (fun k other => ?_) ?_
      · change recorded (requests ++ [.declare d]) d.key = d.fill (recorded requests d.key)
        rw [recorded_snoc_declare, if_neg (by simp [defined])]
        rw [recorded_of_undefined defined]
        rfl
      · exact recorded_snoc_of_ne other
      · exact fun e => ⟨rfl, rfl⟩

end Serve

theorem after_tabulates (requests : List Request) :
    (after requests).Tabulates (keys requests) (recorded requests) := by
  induction requests using List.reverseRecOn with
  | nil => exact ⟨rfl, inStep_empty, List.nodup_nil, recorded_key []⟩
  | append_singleton requests request ih =>
    rw [after_snoc]
    exact serve_tabulates ih request

def Accepted (requests : List Request) (d : Declaration) : Prop :=
  ∃ earlier later id, requests = earlier ++ .declare d :: later ∧
    ((after earlier).declare d).1 = .ok id

section After

variable {requests : List Request} {key : String × Nat} {id : FuncId} {e : Entry}
  {d : Declaration}

theorem lookup?_after :
    (after requests).lookup? key.1 key.2 = some id ↔ (keys requests)[id.index]? = some key :=
  (after_tabulates requests).lookup?_eq_some_iff

theorem find?_after (known : (after requests).lookup? key.1 key.2 = some id) :
    (after requests).find? id = some (recorded requests key) := by
  rw [(after_tabulates requests).find?_eq, lookup?_after.mp known]
  rfl

theorem lookup?_append (later : List Request)
    (known : (after requests).lookup? key.1 key.2 = some id) :
    (after (requests ++ later)).lookup? key.1 key.2 = some id := by
  rw [lookup?_after] at known ⊢
  obtain ⟨bound, -⟩ := List.getElem?_eq_some_iff.mp known
  obtain ⟨further, same⟩ := keys_prefix requests later
  rw [← same, List.getElem?_append_left bound, known]

theorem recorded_of_declared (declared : requests.findSome? (·.declaration? key) = some d) :
    recorded requests key = d.entry (requests.filterMap (·.place? key)) := by
  simp only [recorded, declared]

theorem accepted_iff :
    Accepted requests d ↔ requests.findSome? (·.declaration? d.key) = some d := by
  constructor
  · rintro ⟨earlier, later, id, rfl, accepted⟩
    have undefined : (recorded earlier d.key).defined = false := by
      by_contra defined
      rw [declare_of_defined (after_tabulates earlier) (by simpa using defined)] at accepted
      cases accepted
    rw [recorded_defined, Option.isSome_eq_false_iff, Option.isNone_iff_eq_none] at undefined
    rw [List.findSome?_append, undefined, Option.none_or, List.findSome?_cons,
      Request.declaration?, if_pos rfl]
  · intro first
    obtain ⟨earlier, request, later, rfl, same, none⟩ := List.findSome?_eq_some_iff.mp first
    obtain ⟨rfl, -⟩ := Request.declaration?_eq_some_iff.mp same
    have undefined : (recorded earlier d.key).defined = false := by
      rw [recorded_defined, List.findSome?_eq_none_iff.mpr none]
      rfl
    exact ⟨earlier, later, _, rfl,
      congrArg Prod.fst (declare_of_undefined (after_tabulates earlier) undefined)⟩

theorem lookup?_of_answer {request : Request}
    (answer : ((after requests).serve request).1 = .ok id) :
    (after (requests ++ [request])).lookup? request.key.1 request.key.2 = some id := by
  have here := ((after_tabulates requests).entry request.key recorded_of_not_mem).2
  rw [lookup?_after, keys_snoc]
  cases request with
  | reference name arity span =>
    cases answer
    exact here
  | declare d =>
    cases defined : (recorded requests d.key).defined with
    | true =>
      rw [serve, declare_of_defined (after_tabulates requests) defined] at answer
      cases answer
    | false =>
      rw [serve, declare_of_undefined (after_tabulates requests) defined] at answer
      cases answer
      exact here

end After

/-- What a registry has to say of the requests that made it. -/
structure Represents (requests : List Request) : Prop where
  /-- The index leads to every entry, and from nowhere else. -/
  inStep : (after requests).InStep
  mentioned (key : String × Nat) :
    (∃ id, (after requests).lookup? key.1 key.2 = some id) ↔
      ∃ request ∈ requests, request.key = key
  distinct {key key' : String × Nat} {id : FuncId} :
    (after requests).lookup? key.1 key.2 = some id →
      (after requests).lookup? key'.1 key'.2 = some id → key = key'
  named {key : String × Nat} {id : FuncId} :
    (after requests).lookup? key.1 key.2 = some id →
      ∃ e, (after requests).find? id = some e ∧ (e.name, e.arity) = key
  /-- What a request is answered with is the identity of its key, then and ever after. -/
  answered {request : Request} {id : FuncId} (later : List Request) :
    ((after requests).serve request).1 = .ok id →
      (after (requests ++ request :: later)).lookup? request.key.1 request.key.2 = some id
  stable {key : String × Nat} {id : FuncId} (later : List Request) :
    (after requests).lookup? key.1 key.2 = some id →
      (after (requests ++ later)).lookup? key.1 key.2 = some id
  places {key : String × Nat} {id : FuncId} {e : Entry} :
    (after requests).lookup? key.1 key.2 = some id → (after requests).find? id = some e →
      e.calls = requests.filterMap (·.place? key)
  defined {key : String × Nat} {id : FuncId} {e : Entry} :
    (after requests).lookup? key.1 key.2 = some id → (after requests).find? id = some e →
      (e.defined = true ↔ ∃ d, d.key = key ∧ Accepted requests d)
  /-- A defined entry holds what the first declaration of its key says. -/
  filled {id : FuncId} {e : Entry} {d : Declaration} :
    (after requests).lookup? d.key.1 d.key.2 = some id → (after requests).find? id = some e →
      Accepted requests d →
      e = d.entry e.calls ∧ requests.findSome? (·.declaration? d.key) = some d
  refused {id : FuncId} {e : Entry} {d : Declaration} :
    (after requests).lookup? d.key.1 d.key.2 = some id → (after requests).find? id = some e →
      e.defined = true →
      (after requests).declare d =
        (.error (.duplicate d.name d.params.length d.span), after requests)
  checked :
    (after requests).check = .ok () ↔
      ∀ request ∈ requests, ∃ id e,
        (after requests).lookup? request.key.1 request.key.2 = some id ∧
          (after requests).find? id = some e ∧ e.defined = true

/-- References and declarations may come in any order: a registry represents what was requested. -/
theorem after_represents (requests : List Request) : Represents requests where
  inStep := (after_tabulates requests).inStep
  mentioned key := by
    rw [← mem_keys, List.mem_iff_getElem?]
    simp only [lookup?_after]
    exact ⟨fun ⟨id, here⟩ => ⟨id.index, here⟩, fun ⟨i, here⟩ => ⟨⟨i⟩, here⟩⟩
  distinct known known' :=
    Option.some.inj ((lookup?_after.mp known).symm.trans (lookup?_after.mp known'))
  named known := ⟨_, find?_after known, recorded_key requests _⟩
  answered later answer := by
    rw [List.append_cons]
    exact lookup?_append later (lookup?_of_answer answer)
  stable later known := lookup?_append later known
  places known found := by
    cases (find?_after known).symm.trans found
    exact recorded_calls
  defined known found := by
    cases (find?_after known).symm.trans found
    rw [recorded_defined, Option.isSome_iff_exists]
    constructor
    · rintro ⟨d, first⟩
      obtain ⟨request, -, same⟩ := List.exists_of_findSome?_eq_some first
      obtain ⟨rfl, rfl⟩ := Request.declaration?_eq_some_iff.mp same
      exact ⟨d, rfl, accepted_iff.mpr first⟩
    · rintro ⟨d, rfl, accepted⟩
      exact ⟨d, accepted_iff.mp accepted⟩
  filled known found accepted := by
    have first := accepted_iff.mp accepted
    cases (find?_after known).symm.trans found
    rw [recorded_calls, recorded_of_declared first]
    exact ⟨rfl, first⟩
  refused known found defined := by
    cases (find?_after known).symm.trans found
    exact declare_of_defined (after_tabulates requests) defined
  checked := by
    rw [check_eq_ok_iff, (after_tabulates requests).entries, List.forall_mem_map]
    constructor
    · intro all request member
      have known := mem_keys.mpr ⟨request, member, rfl⟩
      obtain ⟨i, here⟩ := List.mem_iff_getElem?.mp known
      have lookup : (after requests).lookup? request.key.1 request.key.2 = some ⟨i⟩ :=
        lookup?_after.mpr here
      exact ⟨⟨i⟩, _, lookup, find?_after lookup, all _ known⟩
    · intro all key known
      obtain ⟨request, member, rfl⟩ := mem_keys.mp known
      obtain ⟨id, e, lookup, found, defined⟩ := all request member
      cases (find?_after lookup).symm.trans found
      exact defined

end Registry

end QueryFunctions
