import QueryFunctions.Proofs.Compile.Literals
import QueryFunctions.Proofs.Query.Checking
import QueryFunctions.Proofs.Query.Recursion

/-! Named literals in units that compile. A literal has the signature of the function that it names as that
is declared, unless the function is in the making when the literal is compiled. That takes a function that
leads back to itself, and such a literal loses the parameters of the declaration. -/
namespace QueryFunctions

open Relation

theorem Expr.Draft.blank {r : Registry} {exact : Prop} {p : Place} {e : Expr} (h : e.Draft r exact p)
    (complete : ∀ id d, r.find? id = some d → d.params.length = d.arity) : e.Blank r := by
  have inherited : ∀ x : Expr, (∃ q, x.Draft r exact q) → ∀ y ∈ x.parts, ∃ q, y.Draft r exact q :=
    fun x ⟨_, hx⟩ y mem => hx.part mem
  intro site c mem
  obtain ⟨_, hc⟩ := of_mem_nodes inherited e ⟨p, h⟩ mem
  cases hc with
  | literal _ introduces _ none serves =>
    obtain ⟨⟨d, found, named, signature⟩, distinct⟩ := introduces
    rw [← complete _ d found] at signature
    have known : ∀ x ∈ c.params, (c.scope.find? x).isSome = true :=
      fun x mem => Scope.isSome_find?_iff.2 (serves.known x (.inl mem))
    exact ⟨d, found, named, ⟨signature, known⟩, distinct, none⟩

namespace Query

variable {q : Query} {exact : Prop} {declared : Registry} {o : Options} {s : CompileState} {budget : Nat}
  {main : Expr} {passes : Registry → LiteralSite → Expr → Bool} {alarm : Compile Expr}

theorem Drafted.complete (drafted : q.Drafted exact) (checked : q.check = .ok ()) (id : FuncId)
    (d : Entry) (found : q.registry.find? id = some d) : d.params.length = d.arity := by
  have all := (Registry.check_eq_ok_iff _).1 (check_parts checked).1
  exact ((drafted.functions.entries id d found).defined (all d (List.mem_of_getElem? found))).1

theorem Drafted.blank (drafted : q.Drafted exact) (checked : q.check = .ok ()) : q.registry.Blank where
  known id d found x mem :=
    Scope.isSome_find?_iff.2 ((drafted.functions.entries id d found).scope.known x (.inl mem))
  body id d body found present :=
    ((drafted.functions.entries id d found).body body present).blank (drafted.complete checked)

theorem Drafted.follows (drafted : q.Drafted exact) :
    CompileState.Follows q.registry (fun _ => False) ⟨q.supply, q.registry, q.scope⟩ := by
  refine ⟨fun id d known => ⟨d, known⟩, fun id e found => ⟨e, found, ?_⟩, fun id e found => ?_⟩
  · have pending := (drafted.functions.entries id e found).pending
    exact ⟨rfl, fun _ => rfl, fun making => absurd (pending.symm.trans making) nofun, fun _ => .refl _⟩
  · simp [(drafted.functions.entries id e found).pending]

theorem reachedWith_inspects (blank : declared.Blank)
    (lets : ∀ r site literal, declared.Lends (fun id => TransGen declared.Uses id id) r site literal →
      passes r site literal = true) (hs : s.Follows declared fun _ => False)
    (hmain : main.Blank declared) :
    (inspectionPact declared fun _ => False).Keeps o s (reachedWith (Expr.simplify budget) main)
      (reachedWith (Expr.simplifyInspected passes alarm budget) main) fun _ _ => True := by
  refine (Compile.expressionWith_inspects blank lets hs hmain).skip fun main' t ht _ => ?_
  refine (Pact.Keeps.get ht).bind fun _ u hu _ same => ?_
  obtain ⟨rfl, rfl⟩ := same
  refine (Pact.Keeps.forM (fun _ v hv => Compile.registeredWith_inspects blank lets hv _) _ u hu).skip
    fun _ v hv _ => .pure hv trivial

end Query

/-- Compiles an expression with an inspector for its own literals, and none for those in functions. -/
def Compile.expressionInspected (passes : Registry → LiteralSite → Expr → Bool) (alarm : Compile Expr)
    (budget : Nat) (e : Expr) : Compile Expr := do
  let depth := (← get).registry.entries.length + 1
  e.compileWith (Expr.simplifyInspected passes alarm budget) (function (Expr.simplify budget) depth)

theorem Compile.expressionInspected_inspects {declared : Registry} {o : Options} {s : CompileState}
    {budget : Nat} {passes : Registry → LiteralSite → Expr → Bool} {alarm : Compile Expr} {e : Expr}
    (blank : declared.Blank)
    (lets : ∀ r site literal, declared.Lends (fun _ => False) r site literal →
      passes r site literal = true) (hs : s.Follows declared fun _ => False) (he : e.Blank declared) :
    Inspects declared (fun _ => False) o s (expression budget e)
      (expressionInspected passes alarm budget e) := by
  refine (Pact.Keeps.get hs).bind fun _ t ht _ same => ?_
  obtain ⟨rfl, rfl⟩ := same
  have inspected : PrepareInspects declared (fun _ => False) (fun _ => True) o
      (function (Expr.simplify budget) (t.registry.entries.length + 1))
      (function (Expr.simplifyInspected (fun _ _ _ => true) (fault .budget) budget)
        (t.registry.entries.length + 1)) :=
    function_inspects _ blank (fun _ _ _ _ => rfl) .idle
  exact (inspectionPact_compilers alarm budget (fun id u hu within => .same (inspected id u hu within).law)
    blank lets fun _ => False.elim).compileWith e t ht ⟨he, fun _ _ => trivial⟩

/-- Literals and signatures. A literal of the main expression is compiled to one that bears the signature
of the function that it names, as declared. A literal anywhere bears the signature that the function lends:
the declared one, or while the function is in the making the one with numbered parameters; then the function
leads back to itself by calls and literals. Whatever bears a signature gives an item that bears it, now and
after calls are refreshed or the code is copied. -/
theorem literal_signatures {options : Options} {requests : List BuildStep} {q : Query} {budget : Nat}
    (made : Query.build options requests = .ok q) (compiled : (q.compile budget).1 = .ok (.ok ())) :
    (∀ passes alarm,
      (∀ r site literal d, q.registry.find? site.target = some d → d.name = site.name →
        literal.Bears d.signature → passes r site literal = true) →
      (Compile.expressionInspected passes alarm budget q.main).outcome q.options
          ⟨q.supply, q.registry, q.scope⟩ =
        (Compile.expression budget q.main).outcome q.options ⟨q.supply, q.registry, q.scope⟩) ∧
    (∀ passes alarm,
      (∀ r site literal, q.registry.Lends (fun id => TransGen q.registry.Uses id id) r site literal →
        passes r site literal = true) →
      q.compileWith (Expr.simplifyInspected passes alarm budget) = q.compile budget) ∧
    ∀ σ literal, Expr.Bears σ literal →
      (∀ call r s v t, literal.evaluate call r s = (.ok (.ok v), t) → ∃ f, v = .func f ∧ f.Bears σ) ∧
      (∀ flagsOf, (literal.refreshCalls flagsOf).Bears σ) ∧
      ∀ w p table, literal.Formed w p → Yields (literal.copy table) (·.Bears σ) := by
  obtain ⟨-, drafted⟩ := Query.drafted_of_build made
  obtain ⟨checked, reached, t, run⟩ := Query.reached_of_compiled drafted.stage compiled
  have blank := drafted.blank checked
  have hmain := drafted.main.blank (drafted.complete checked)
  refine ⟨fun passes alarm lets => ?_, fun passes alarm lets => ?_, fun σ literal bears => ?_⟩
  · obtain ⟨main, u, first, -⟩ := Computation.of_bind_ok run
    have idle : ∀ r site literal, q.registry.Lends (fun _ => False) r site literal →
        passes r site literal = true := by
      intro r site literal ⟨d, e, known, named, _, idle, bears⟩
      rw [d.lent_of_idle idle] at bears
      exact lets r site literal d known named bears
    have inspects : Compile.Inspects q.registry (fun _ => False) q.options
        ⟨q.supply, q.registry, q.scope⟩ (Compile.expression budget q.main)
        (Compile.expressionInspected passes alarm budget q.main) :=
      Compile.expressionInspected_inspects blank idle drafted.follows hmain
    exact (inspects.follows _ _ first trivial).trans first.symm
  · rw [Query.compile_eq, Query.compileWith_of_reached drafted.stage checked run]
    refine Query.compileWith_of_reached drafted.stage checked ?_
    exact (Query.reachedWith_inspects blank lets drafted.follows hmain).follows _ _ run trivial
  · refine ⟨fun _ _ _ _ _ run => bears.evaluate run, fun _ => bears.mapSites _ _, fun w p table hp => ?_⟩
    refine bears.copy (fun site c same => ?_) table
    subst same
    cases hp with
    | literal _ _ hc =>
      cases hc with
      | intro serves => exact ⟨_, serves.sound⟩

def Expr.firstParam? : Expr → Option String
  | .value (.func f) => f.paramName? 0
  | .literal _ c => c.signature.params.head?.map Prod.fst
  | _ => none

theorem Expr.Bears.firstParam?_eq {σ : Signature} {e : Expr} {p : String × Option SeqType}
    (h : e.Bears σ) (first : σ.params.head? = some p) : e.firstParam? = some p.1 := by
  cases h with
  | item hf => exact hf.named 0 p (List.head?_eq_getElem?.symm.trans first)
  | literal hc =>
    rw [firstParam?, hc.signature, first]
    rfl

def naming : Sample {} where
  requests :=
    [.declare { name := some "f", params := [("n", some .integer)] } (.var "n"),
      .main (.seq [.literal "f" 1, .focus])]
  made := by cbv
  compiled := by cbv

/-- The parameter of the literal is called as it is declared. -/
theorem literal_signatures_naming :
    (Compile.expressionInspected (fun _ _ literal => literal.firstParam? == some "n")
        (pure (.focus .synthetic)) 9 naming.query.main).outcome naming.query.options
          ⟨naming.query.supply, naming.query.registry, naming.query.scope⟩ =
      (Compile.expression 9 naming.query.main).outcome naming.query.options
        ⟨naming.query.supply, naming.query.registry, naming.query.scope⟩ := by
  have only : ∀ d ∈ naming.query.registry.entries,
      d.signature.params.head? = some ("n", some .integer) := by
    have all : (naming.query.registry.entries.all fun d =>
        d.signature.params.head? == some ("n", some .integer)) = true := by cbv
    simpa using all
  refine (literal_signatures naming.made naming.compiled).1 _ _ fun r site literal d known _ bears => ?_
  rw [beq_iff_eq]
  exact bears.firstParam?_eq (only d (List.mem_of_getElem? known))

def selfNaming : Sample {} where
  requests :=
    [.declare { name := some "f", params := [("n", some .integer)], returns := some .anyFunction }
        (.literal "f" 1),
      .main (.call "f" [.datum (.int 2)])]
  made := by cbv
  compiled := by cbv

theorem Answer.exists_func {x : Except Fault (Except QueryError Answer)} {p : FuncItem → Bool}
    (h : (match x with
      | .ok (.ok ⟨.func f, _⟩) => p f
      | _ => false) = true) : ∃ f updates, x = .ok (.ok ⟨.func f, updates⟩) ∧ p f = true := by
  split at h
  · exact ⟨_, _, rfl, h⟩
  · cases h

/-- The item that a literal gives need not have the parameters of the declaration. -/
theorem not_literal_signatures : ¬∀ (requests : List BuildStep) (q : Query) (budget : Nat) (f : FuncItem)
    (updates : List Value) (d : Entry), Query.build {} requests = .ok q →
    (q.execute budget .quiet none).1 = .ok (.ok ⟨.func f, updates⟩) → d ∈ q.registry.entries →
    f.name = some d.name → f.Bears d.signature := by
  intro all
  obtain ⟨f, updates, run, item⟩ := Answer.exists_func
    (x := (selfNaming.query.execute 9 .quiet none).1)
    (p := fun f => f.name == some "f" && f.paramName? 0 == some "arg1") (by cbv)
  have declared : (selfNaming.query.registry.entries.any fun d =>
      d.name == "f" && d.signature.params == [("n", some .integer)]) = true := by cbv
  obtain ⟨d, mem, declared⟩ := List.any_eq_true.1 declared
  simp only [Bool.and_eq_true, beq_iff_eq] at item declared
  have bears := all _ _ _ f updates d selfNaming.made run mem (by rw [item.1, declared.1])
  have named := bears.named 0 ("n", some .integer) (by rw [declared.2]; rfl)
  rw [item.2] at named
  simp at named

end QueryFunctions
