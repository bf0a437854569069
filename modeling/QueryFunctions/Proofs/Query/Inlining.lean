import Mathlib
import QueryFunctions.Proofs.Query.Checking

/-! What expansion does to the frame of the caller. Adopted variables take slots that are free when the
expansion is made, which the lets of closed regions may still use when the code is run. So a caller's
variables are safe exactly if its scope has no free slot; then an expansion writes to new slots only,
and to those that its arguments write to by themselves. -/
namespace QueryFunctions

namespace Query

/-- The scopes that the compiler works in, each with the identities that are drawn so far: those of the
main expression, of a function and of a closure, and what adoptions make of them. -/
inductive HasScope (q : Query) : Scope → Supply → Prop
  | main : HasScope q q.scope q.supply
  | function {id e} : q.registry.find? id = some e → HasScope q e.scope q.supply
  | closure {body n c} : q.HasBody body → n ∈ body.nodes → n.closure? = some c →
      HasScope q c.scope q.supply
  | later {scope supply supply'} : HasScope q scope supply → supply.nextVar ≤ supply'.nextVar →
      HasScope q scope supply'
  | adopted {scope supply} (callee : Scope) : HasScope q scope supply →
      HasScope q ((callee.adoptInto scope).run supply).1.1 ((callee.adoptInto scope).run supply).2

theorem Built.proper {q : Query} (built : q.Built) {scope : Scope} {supply : Supply}
    (has : q.HasScope scope supply) : scope.Proper supply := by
  induction has with
  | main => exact built.scope
  | function found => exact (built.functions _ _ found).scope
  | closure has mem made =>
    rcases has with rfl | ⟨id, entry, found, present⟩
    · exact built.main.proper_of_mem_nodes mem made
    · exact ((built.functions id entry found).body _ present).proper_of_mem_nodes mem made
  | later _ le proper => exact proper.mono le
  | @adopted scope supply callee _ proper =>
    obtain ⟨adopted, adoption⟩ := callee.adoptInto_adoption scope supply
    exact ⟨adoption.laid proper.laid, (adoption.slots proper.fresh).1⟩

/-- What the code of a unit keeps while it is compiled, as far as frames are concerned. -/
def framing (q : Query) : Standard := q.standard False True

/-- A state of the compiler at work on the unit. -/
structure Compiling (q : Query) (s : CompileState) : Prop where
  functions : ∀ id e, s.registry.find? id = some e → e.Meets q.framing id
  scope : q.HasScope s.scope s.supply

end Query

namespace Allowance

/-- Code may write to slots that `writes` names and to those that no open variable of the scope has,
and do all else. -/
def writing (d : Standard) (writes : Nat → Prop) (scope : Scope) : Allowance :=
  { ofBody d true scope with slot := fun slot => writes slot ∨ ¬scope.Taken slot }

theorem Open.writing {d : Standard} (bound : d.bound) (writes : Nat → Prop) (scope : Scope) :
    (Allowance.writing d writes scope).Open d :=
  ⟨.inr fun _ => rfl, trivial, .inl bound, id⟩

end Allowance

/-- Whenever the code is run, the slots are left as they are. -/
def Expr.Spares (d : Standard) (r : RunSetting) (slots : Nat → Prop) (e : Expr) : Prop :=
  ∀ (steps : Nat) (s t : RunState) (result : Except QueryError Value), s.Meets d →
    Run.evaluate steps e r s = (.ok result, t) →
    ∀ slot, slots slot → t.stack[s.base + slot]? = s.stack[s.base + slot]?

theorem Expr.Meets.spares {d : Standard} {r : RunSetting} {a : Allowance} {e : Expr}
    (he : e.Meets d true a) (unmixed : d.annotated → r.options.mixedUpdates = false)
    (functions : r.registry.Runs d) (updates : a.updates) (draws : a.draws) {slots : Nat → Prop}
    (apart : ∀ slot, slots slot → ¬a.slot slot) : e.Spares d r slots := by
  intro steps s t result hs run slot spared
  have calls := Run.call_keeps unmixed functions updates draws steps
  obtain ⟨-, kept, -⟩ := Expr.evaluate_keeps unmixed calls e s hs he _ _ run
  refine kept.cells _ fun k eq => ?_
  obtain rfl : slot = k := by omega
  exact apart slot spared

/-- What comes of an expansion in the scope of `s`: the body is that of a compiled function with scope
`callee`, and the arguments write to the slots that `writes` names. -/
inductive Compile.Expands (d : Standard) (o : Options) (s : CompileState) (writes : Nat → Prop)
    (callee : Scope) : Expr → Prop
  | intro {body e : Expr} {updating : Bool} {bindings : List (VarId × Expr)} {origins : List Origin}
      {span : Span} {steps : Nat} {t : CompileState} :
      body.Meets d true (.ofBody d updating callee) →
      (∀ p ∈ bindings, p.2.Meets d true (.writing d writes s.scope)) →
      expand (Expr.simplify steps) callee body bindings origins span o s = (.ok (.ok e), t) →
      Expands d o s writes callee e

namespace Query

variable {q : Query} {budget : Nat}

theorem Built.compiling (built : q.Built) (compiled : (q.compile budget).1 = .ok (.ok ()))
    {scope : Scope} (has : q.HasScope scope q.supply) :
    q.Compiling ⟨q.supply, q.registry, scope⟩ :=
  ⟨(built.raw (check_of_compiled built.stage compiled) False.elim).functions, has⟩

theorem Built.expansion_spares (built : q.Built) (compiled : (q.compile budget).1 = .ok (.ok ()))
    {o : Options} {s : CompileState} (hs : q.Compiling s)
    {writes : Nat → Prop} {callee : Scope} {e : Expr}
    (expands : Compile.Expands q.framing o s writes callee e) :
    e.Spares (q.framing.drawing (q.compile budget).2.registry.Draws)
      (q.compile budget).2.setting fun slot => s.scope.Taken slot ∧ ¬writes slot := by
  obtain ⟨hbody, values, run⟩ := expands
  have start : s.Meets q.framing (.writing q.framing writes s.scope) :=
    ⟨hs.functions, fun _ free => .inr free, .inl (built.proper hs.scope).fresh⟩
  have simplifies := Expr.simplify_keeps (d := q.framing) (o := o) False.elim
  obtain ⟨-, -, made⟩ := Compile.expand_makes (simplifies _) (.writing trivial writes s.scope) start
    hbody (fun _ _ => rfl) values _ _ _ _ run
  have he := Expr.meets_drawing (D := (q.compile budget).2.registry.Draws) trivial (fun h => h) e
    (made e rfl)
  have ready : (q.compile budget).2.Ready q.framing := built.ready compiled False.elim
  refine he.spares False.elim ready.functions.runs (fun _ => rfl) trivial fun slot spared => ?_
  rintro (written | free)
  · exact spared.2 written
  · exact free spared.1

end Query

variable {options : Options} {requests : List BuildStep} {q : Query} {budget : Nat} {s : CompileState}

/-- Adopted variables have slots of their own, apart from those of the scope at hand exactly if none of
these is free. An expansion leaves the slots of open variables as they are, and if none is free those of
all variables, but where its arguments write to them. -/
theorem expansion_apart (made : Query.build options requests = .ok q)
    (compiled : (q.compile budget).1 = .ok (.ok ())) (hs : q.Compiling s)
    (callee : Scope) :
    (∃ adopted : List (VarId × Nat),
      ((callee.adoptInto s.scope).run s.supply).1.1.layout = s.scope.layout ++ adopted ∧
        adopted.length = callee.vars.length ∧ (adopted.map Prod.snd).Nodup ∧
        ((∀ slot ∈ adopted.map Prod.snd, slot ∉ s.scope.layout.map Prod.snd) ↔
          callee.vars = [] ∨ s.scope.Full)) ∧
    ∀ o writes e, Compile.Expands q.framing o s writes callee e →
      e.Spares (q.framing.drawing (q.compile budget).2.registry.Draws)
        (q.compile budget).2.setting
        fun slot => slot ∈ s.scope.layout.map Prod.snd ∧ (s.scope.Full ∨ s.scope.Taken slot) ∧
          ¬writes slot := by
  obtain ⟨built, -⟩ := Query.built_of_build made
  have proper := built.proper hs.scope
  constructor
  · obtain ⟨adopted, adoption⟩ := callee.adoptInto_adoption s.scope s.supply
    exact ⟨adopted, adoption.layout, adoption.length, adoption.distinct,
      adoption.apart_iff proper.laid⟩
  · rintro o writes e expands steps u t result hu run slot ⟨known, clear, unwritten⟩
    refine built.expansion_spares compiled hs expands steps u t result hu run slot ⟨?_, unwritten⟩
    rcases clear with full | taken
    · obtain ⟨p, mem, rfl⟩ := List.mem_map.1 known
      exact full.taken (proper.laid.bounded p mem)
    · exact taken

/-- A square, and a sum that squares its variable and reads it again. -/
def squaring : Sample {} where
  requests :=
    [.declare { name := some "f", params := [("x", none)] } (.arith .mul (.var "x") (.var "x")),
      .declare { name := some "g", params := [("y", none)] }
        (.arith .add (.call "f" [.arith .add (.var "y") (.datum (.int 1))]) (.var "y")),
      .main (.call "g" [.datum (.int 5)])]
  made := by cbv
  compiled := by cbv

namespace squaring

def scope (id : Nat) : Scope := ((squaring.query.registry.find? ⟨id⟩).map Entry.scope).getD {}

def start : CompileState := ⟨squaring.query.supply, squaring.query.registry, scope 1⟩

def square : Expr :=
  .arith .mul (.var ⟨⟨0⟩, 0, .item, .synthetic⟩) (.var ⟨⟨0⟩, 0, .item, .synthetic⟩) .synthetic

def argument : Expr :=
  .arith .add (.var ⟨⟨1⟩, 0, .item, .synthetic⟩) (.value (.int 1)) .synthetic

def expansion : Except Fault (Except QueryError Expr) × CompileState :=
  Compile.expand (Expr.simplify 9) (scope 0) square [(⟨0⟩, argument)] [] .synthetic {} start

def expanded : Expr :=
  match expansion.1 with
  | .ok (.ok e) => e
  | _ => .empty

end squaring

theorem squaring_hasScope :
    squaring.query.HasScope (squaring.scope 1) squaring.query.supply := by
  have present : (squaring.query.registry.find? ⟨1⟩).isSome = true := by cbv
  obtain ⟨e, found⟩ := Option.isSome_iff_exists.1 present
  have scope : e.scope = squaring.scope 1 := by simp [squaring.scope, found]
  exact scope ▸ .function found

theorem squaring_expands : Compile.Expands squaring.query.framing {} squaring.start
    (fun _ => False) (squaring.scope 0) squaring.expanded := by
  have square : squaring.square.Meets squaring.query.framing true
      (.ofBody squaring.query.framing false (squaring.scope 0)) := by
    simp [squaring.square, Expr.Meets]
  have expanded : squaring.expansion.1 = .ok (.ok squaring.expanded) := by cbv
  refine .intro square ?_ (eq_of_fst_eq expanded)
  simp [squaring.argument, Expr.Meets, Value.Meets]

theorem expansion_apart_squaring :
    (∃ adopted : List (VarId × Nat),
      (((squaring.scope 0).adoptInto squaring.start.scope).run squaring.start.supply).1.1.layout =
        squaring.start.scope.layout ++ adopted ∧
      ∀ slot ∈ adopted.map Prod.snd, slot ∉ squaring.start.scope.layout.map Prod.snd) ∧
    squaring.expanded.Spares
      (squaring.query.framing.drawing (squaring.query.compile 9).2.registry.Draws)
      (squaring.query.compile 9).2.setting fun slot => slot = 0 := by
  have full : squaring.start.scope.freeSlot = squaring.start.scope.frameSize := by cbv
  have layout : squaring.start.scope.layout = [(⟨1⟩, 0)] := by cbv
  obtain ⟨built, -⟩ := Query.built_of_build squaring.made
  have compiling : squaring.query.Compiling squaring.start :=
    built.compiling squaring.compiled squaring_hasScope
  have apart := expansion_apart squaring.made squaring.compiled compiling (squaring.scope 0)
  constructor
  · obtain ⟨adopted, layout, -, -, iff⟩ := apart.1
    exact ⟨adopted, layout, iff.2 (.inr full)⟩
  · have spares := apart.2 {} _ _ squaring_expands
    rintro steps s t result hs run slot rfl
    exact spares steps s t result hs run 0 ⟨by rw [layout]; simp, .inl full, fun h => h⟩

def clobberingRequests : List BuildStep :=
  [.declare { name := some "f", params := [("x", none)] } (.arith .mul (.var "x") (.var "x")),
    .main (.letIn "a" .focus (.arith .add (.call "f" [.arith .add .focus (.datum (.int 1))])
      (.var "a")))]

def clobbering : Sample {} where
  requests := clobberingRequests
  made := by cbv
  compiled := by cbv

def clobbering.callee : Scope :=
  ((clobbering.query.registry.find? ⟨0⟩).map Entry.scope).getD {}

theorem clobbering_layout : clobbering.query.scope.layout = [(⟨1⟩, 0)] := by cbv

theorem clobbering_adopts : ((clobbering.callee.adoptInto clobbering.query.scope).run
    clobbering.query.supply).1.1.layout = clobbering.query.scope.layout ++ [(⟨2⟩, 0)] := by cbv

/-- Without the condition on free slots an expansion may overwrite variables. -/
theorem not_expansion_apart : ¬∀ (requests : List BuildStep) (q : Query) (target callee : Scope)
    (supply : Supply) (adopted : List (VarId × Nat)),
    Query.build {} requests = .ok q → q.HasScope target supply →
    ((callee.adoptInto target).run supply).1.1.layout = target.layout ++ adopted →
    ∀ slot ∈ adopted.map Prod.snd, slot ∉ target.layout.map Prod.snd := by
  intro all
  have known : 0 ∈ clobbering.query.scope.layout.map Prod.snd := by rw [clobbering_layout]; simp
  exact all _ _ _ _ _ _ clobbering.made .main clobbering_adopts 0 (by simp) known

def sparing : Sample { inlineLimit := 0 } where
  requests := clobberingRequests
  made := by cbv
  compiled := by cbv

theorem sparing_answer : (sparing.query.execute 9 .quiet (some (.int 10))).1 =
    .ok (.ok ⟨.int 131, []⟩) := by cbv

theorem clobbering_answer : (clobbering.query.execute 9 .quiet (some (.int 10))).1 =
    .ok (.ok ⟨.int 132, []⟩) := by cbv

/-- So the inlining limit shows in the value of a unit. -/
theorem not_execute_of_inlineLimit : ¬∀ (requests : List BuildStep) (limit budget : Nat)
    (focus : Option Value) (q q' : Query) (answer : Answer),
    Query.build { inlineLimit := 0 } requests = .ok q →
    Query.build { inlineLimit := limit } requests = .ok q' →
    (q.execute budget .quiet focus).1 = .ok (.ok answer) →
    (q'.execute budget .quiet focus).1 = .ok (.ok answer) := by
  intro all
  have same := all clobberingRequests _ _ _ _ _ _ sparing.made clobbering.made sparing_answer
  rw [clobbering_answer] at same
  injection same with same
  injection same with same
  injection same with value
  injection value with value
  exact absurd value (by decide)

end QueryFunctions
