import QueryFunctions.Proofs.Build.Raw
import QueryFunctions.Proofs.Form.Basic
import QueryFunctions.Proofs.Form.State
import QueryFunctions.Proofs.Registry.Signature

/-! Drafts: code as the builder makes it, at the place where it stands. Variables are those that are
visible there, calls are recorded with as many arguments as they have, and constants depend on nothing.
Literals have the names of their functions, and parameters that are only numbered. A draft is raw code,
and it is well formed in every world that knows its calls and its errors. -/
namespace QueryFunctions

/-- The function is called or named somewhere, with so many arguments. -/
def Registry.Calls (r : Registry) (id : FuncId) (n : Nat) : Prop :=
  ∃ e, r.find? id = some e ∧ e.arity = n ∧ e.calls ≠ []

theorem Registry.Calls.mentions {r : Registry} {id : FuncId} {n : Nat} (calls : r.Calls id n) :
    r.Mentions id := by
  obtain ⟨e, found, -, called⟩ := calls
  exact ⟨e, found, called⟩

/-- The literal has the name of its function, and parameters that are only numbered. -/
structure Registry.Introduces (r : Registry) (site : LiteralSite) (c : Closure) : Prop where
  entry : ∃ e, r.find? site.target = some e ∧ e.name = site.name ∧
    c.signature = ⟨some e.name, numberedLabels 0 e.arity, none, {}⟩
  distinct : c.params.Nodup

/-- Functions stay under their names and arities, and the mentioned ones mentioned. -/
def Registry.Recalls (r r' : Registry) : Prop := ∀ id e, r.find? id = some e →
  ∃ e', r'.find? id = some e' ∧ e'.name = e.name ∧ e'.arity = e.arity ∧ (e.calls ≠ [] → e'.calls ≠ [])

namespace Registry.Recalls

variable {r r' r'' : Registry}

theorem refl (r : Registry) : r.Recalls r := fun _ e found => ⟨e, found, rfl, rfl, id⟩

theorem trans (first : r.Recalls r') (second : r'.Recalls r'') : r.Recalls r'' := by
  intro id e found
  obtain ⟨e', found', name, arity, called⟩ := first id e found
  obtain ⟨e'', found'', name', arity', called'⟩ := second id e' found'
  exact ⟨e'', found'', name'.trans name, arity'.trans arity, called' ∘ called⟩

theorem calls (h : r.Recalls r') {id : FuncId} {n : Nat} (calls : r.Calls id n) : r'.Calls id n := by
  obtain ⟨e, found, rfl, called⟩ := calls
  obtain ⟨e', found', -, arity, still⟩ := h id e found
  exact ⟨e', found', arity, still called⟩

theorem introduces (h : r.Recalls r') {site : LiteralSite} {c : Closure}
    (introduces : r.Introduces site c) : r'.Introduces site c := by
  obtain ⟨⟨e, found, named, signature⟩, distinct⟩ := introduces
  obtain ⟨e', found', name, arity, -⟩ := h site.target e found
  exact ⟨⟨e', found', name.trans named, by rw [signature, name, arity]⟩, distinct⟩

end Registry.Recalls

/-- A value that meets all standards, in all worlds. Its functions are built in. -/
structure Value.Plain (v : Value) : Prop where
  meets : ∀ d, v.Meets d
  formed : ∀ w, v.Formed w
  builtin : ∀ f, v.HasItem f → ∃ b, f.code = .builtin b

/-- `exact` says that the open positions of partial applications are positions of their arguments. -/
inductive Expr.Draft (r : Registry) (exact : Prop) : Place → Expr → Prop
  | value {p v} : v.Plain → Draft r exact p (.value v)
  | var {p ref} : p.bound ref.id → (ref.id, ref.slot) ∈ p.scope.layout → Draft r exact p (.var ref)
  | letIn {p id slot bound body} : (id, slot) ∈ p.scope.layout → ¬p.spared slot →
    Draft r exact p bound → Draft r exact (p.opened id) body →
    Draft r exact p (.letIn id slot bound body)
  | branch {p cond yes no span} : Draft r exact p cond → Draft r exact p yes → Draft r exact p no →
    Draft r exact p (.branch cond yes no span)
  | arith {p op lhs rhs span} : Draft r exact p lhs → Draft r exact p rhs →
    Draft r exact p (.arith op lhs rhs span)
  | compare {p op lhs rhs span} : Draft r exact p lhs → Draft r exact p rhs →
    Draft r exact p (.compare op lhs rhs span)
  | seq {p items} : (∀ e ∈ items, Draft r exact p e) → Draft r exact p (.seq items)
  | focus {p span} : p.focus → Draft r exact p (.focus span)
  | treat {p e type span} : Draft r exact p e → Draft r exact p (.treat e type span)
  | builtin {p b args span} : (∀ e ∈ args, Draft r exact p e) → Draft r exact p (.builtin b args span)
  | error {p e} : Draft r exact p (.error e)
  | closure {p} {c : Closure} : c.compiled = false →
    c.scope.Serves p.supply c.params (c.captures.map Prod.fst) → p.Apart c.scope →
    (∀ q ∈ c.captures, Draft r exact p q.2) → Draft r exact (c.placeIn p) c.body →
    Draft r exact p (.closure c)
  | literal {p} {site : LiteralSite} {c : Closure} {inner : CallSite} {refs : List VarRef} :
    r.Calls site.target c.params.length → r.Introduces site c → c.compiled = false →
    c.captures = [] → c.scope.Serves p.supply c.params [] → p.Apart c.scope → inner.target = site.target →
    c.body = .call inner (refs.map .var) → refs.length = c.params.length →
    (∀ ref ∈ refs, ref.id ∈ c.params ∧ (ref.id, ref.slot) ∈ c.scope.layout) →
    Draft r exact p (.literal site c)
  | partialApply {p target args} {site : PartialSite} :
    (exact → ∀ hole ∈ site.holes, hole < args.length + site.holes.length) →
    Draft r exact p target → (∀ e ∈ args, Draft r exact p e) →
    Draft r exact p (.partialApply site target args)
  | call {p args} {site : CallSite} : r.Calls site.target args.length →
    (∀ e ∈ args, Draft r exact p e) → Draft r exact p (.call site args)
  | dynamicCall {p site callee args} : Draft r exact p callee → (∀ e ∈ args, Draft r exact p e) →
    Draft r exact p (.dynamicCall site callee args)

theorem Place.opened_le {p q : Place} (h : p ≤ q) (id : VarId) : p.opened id ≤ q.opened id :=
  ⟨h.scope, h.supply, Or.imp_right h.bound, h.focus, h.spared, h.claims⟩

namespace Expr.Draft

variable {r r' : Registry} {exact : Prop} {p : Place} {e : Expr}

theorem mono (h : e.Draft r exact p) (recalls : r.Recalls r') {q : Place}
    (le : p ≤ q) : e.Draft r' exact q := by
  induction h generalizing q with
  | value plain => exact .value plain
  | var bound mem => exact .var (le.bound bound) (le.scope _ mem)
  | letIn mem spared _ _ hbound hbody =>
    exact .letIn (le.scope _ mem) (spared ∘ le.spared) (hbound le) (hbody (Place.opened_le le _))
  | branch _ _ _ hcond hyes hno => exact .branch (hcond le) (hyes le) (hno le)
  | arith _ _ hl hr => exact .arith (hl le) (hr le)
  | compare _ _ hl hr => exact .compare (hl le) (hr le)
  | seq _ h => exact .seq fun e mem => h e mem le
  | focus sees => exact .focus (le.focus sees)
  | treat _ h => exact .treat (h le)
  | builtin _ h => exact .builtin fun e mem => h e mem le
  | error => exact .error
  | closure raw serves apart _ _ hcaptures hbody =>
    exact .closure raw (serves.mono le.supply) (apart.onto le.claims serves.sound)
      (fun q mem => hcaptures q mem le) (hbody (Place.inside_le le.supply le.claims _ _ _))
  | literal called introduces raw none serves apart same body length refs =>
    exact .literal (recalls.calls called) (recalls.introduces introduces) raw none
      (serves.mono le.supply) (apart.onto le.claims serves.sound) same body length refs
  | partialApply holes _ _ htarget h =>
    exact .partialApply holes (htarget le) fun e mem => h e mem le
  | call called _ h => exact .call (recalls.calls called) fun e mem => h e mem le
  | dynamicCall _ _ hcallee h => exact .dynamicCall (hcallee le) fun e mem => h e mem le

theorem all_mono {es : List Expr} (h : ∀ e ∈ es, e.Draft r exact p)
    (recalls : r.Recalls r') {q : Place} (le : p ≤ q) :
    ∀ e ∈ es, e.Draft r' exact q := fun e mem => (h e mem).mono recalls le

theorem raw (h : e.Draft r exact p) : e.Raw r p.supply p.scope := by
  induction h with
  | value plain => exact .value plain.meets
  | var _ mem => exact .var mem
  | letIn mem _ _ _ hbound hbody => exact .letIn mem hbound hbody
  | branch _ _ _ hcond hyes hno => exact .branch hcond hyes hno
  | arith _ _ hl hr => exact .arith hl hr
  | compare _ _ hl hr => exact .compare hl hr
  | seq _ h => exact .seq h
  | focus => exact .focus
  | treat _ h => exact .treat h
  | builtin _ h => exact .builtin h
  | error => exact .error
  | closure raw serves _ _ _ hcaptures hbody =>
    exact .closure raw ⟨serves.sound.laid, serves.sound.fresh⟩ hcaptures hbody
  | literal called _ raw none serves _ same body =>
    exact .literal called.mentions raw none ⟨serves.sound.laid, serves.sound.fresh⟩ same body
  | partialApply _ _ _ htarget h => exact .partialApply htarget h
  | call called _ h => exact .call called.mentions h
  | dynamicCall _ _ hcallee h => exact .dynamicCall hcallee h

theorem formed {w : World} (known : ∀ id n, r.Calls id n → w.calls id n) (holes : w.exact → exact)
    (h : e.Draft r exact p) (errors : ∀ err, Expr.error err ∈ e.nodes → w.error err) :
    e.Formed w p := by
  have part : ∀ {e x : Expr}, (∀ err, Expr.error err ∈ e.nodes → w.error err) → x ∈ e.parts →
      ∀ err, Expr.error err ∈ x.nodes → w.error err :=
    fun all mem err among => all err (nodes_subset_of_mem_parts mem among)
  induction h with
  | value plain => exact .value (plain.formed w)
  | var bound mem => exact .var bound mem
  | letIn mem spared _ _ hbound hbody =>
    exact .letIn mem spared (hbound (part errors (by simp [parts])))
      (hbody (part errors (by simp [parts])))
  | branch _ _ _ hcond hyes hno =>
    exact .branch (hcond (part errors (by simp [parts]))) (hyes (part errors (by simp [parts])))
      (hno (part errors (by simp [parts])))
  | arith _ _ hl hr =>
    exact .arith (hl (part errors (by simp [parts]))) (hr (part errors (by simp [parts])))
  | compare _ _ hl hr =>
    exact .compare (hl (part errors (by simp [parts]))) (hr (part errors (by simp [parts])))
  | seq _ h => exact .seq fun e mem => h e mem (part errors mem)
  | focus sees => exact .focus sees
  | treat _ h => exact .treat (h (part errors (by simp [parts])))
  | builtin _ h => exact .builtin fun e mem => h e mem (part errors mem)
  | error => exact .error (errors _ (mem_nodes_self _))
  | closure _ serves apart _ _ hcaptures hbody =>
    refine .closure (.intro serves (fun _ => apart) (fun q mem => hcaptures q mem (part errors ?_))
      (hbody (part errors ?_)))
    · exact List.mem_append_left _ (List.mem_map_of_mem mem)
    · simp [parts]
  | @literal p site c inner refs called _ _ none serves apart same body length hrefs =>
    refine .literal (known _ _ called) none (.intro ?_ (fun _ => apart) (by simp [none]) ?_)
    · rw [none]
      exact serves
    · rw [body]
      refine .call ?_ (List.forall_mem_map.2 fun ref mem => ?_)
      · rw [same, List.length_map, length]
        exact known _ _ called
      · exact .var (.inl (hrefs ref mem).1) (hrefs ref mem).2
  | partialApply open_ _ _ htarget h =>
    exact .partialApply (open_ ∘ holes) (htarget (part errors (by simp [parts])))
      fun e mem => h e mem (part errors (by simp [parts, mem]))
  | call called _ h => exact .call (known _ _ called) fun e mem => h e mem (part errors mem)
  | dynamicCall _ _ hcallee h =>
    exact .dynamicCall (hcallee (part errors (by simp [parts])))
      fun e mem => h e mem (part errors (by simp [parts, mem]))

end Expr.Draft

structure Entry.Draft (r : Registry) (exact : Prop) (supply : Supply) (e : Entry) : Prop where
  pending : e.stage = .pending
  unmarked : e.recursive = false
  scope : e.scope.Serves supply e.params []
  body : ∀ body, e.body = some body → body.Draft r exact (.ofBody e.scope e.params [] supply)
  defined : e.defined = true → e.params.length = e.arity ∧ e.body.isSome = true

namespace Entry.Draft

variable {r r' : Registry} {exact : Prop} {supply supply' : Supply} {e : Entry}

theorem mono (h : e.Draft r exact supply) (recalls : r.Recalls r')
    (le : supply.nextVar ≤ supply'.nextVar) : e.Draft r' exact supply' :=
  { h with
    scope := h.scope.mono le
    body := fun body present => (h.body body present).mono recalls (Place.ofBody_le _ _ _ le) }

theorem raw (h : e.Draft r exact supply) : e.Raw r supply :=
  ⟨h.pending, ⟨h.scope.sound.laid, h.scope.sound.fresh⟩, fun body present => (h.body body present).raw⟩

theorem formed {w : World} (known : ∀ id n, r.Calls id n → w.calls id n) (holes : w.exact → exact)
    (h : e.Draft r exact supply) (defined : e.defined = true)
    (errors : ∀ body err, e.body = some body → Expr.error err ∈ body.nodes → w.error err) :
    e.Formed w supply where
  arity := (h.defined defined).1
  scope _ _ := h.scope
  body body present :=
    ((h.body body present).formed known holes fun err => errors body err present).mono
      (Place.le_refocus fun _ compiled => by cases h.pending.symm.trans compiled)
  present _ := (h.defined defined).2
  absent pending _ := absurd h.pending pending
  failed err failed := by cases h.pending.symm.trans failed
  called pending := absurd h.pending pending

end Entry.Draft

structure Registry.Draft (r : Registry) (exact : Prop) (supply : Supply) : Prop where
  entries : ∀ id e, r.find? id = some e → e.Draft r exact supply
  inStep : r.InStep

theorem Registry.Draft.mono {r : Registry} {exact : Prop} {supply supply' : Supply}
    (h : r.Draft exact supply) (le : supply.nextVar ≤ supply'.nextVar) : r.Draft exact supply' :=
  ⟨fun id e found => (h.entries id e found).mono (.refl r) le, h.inStep⟩

end QueryFunctions
