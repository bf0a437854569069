import QueryFunctions.Proofs.Build.Calls

/-! What a host may do with the builder: the body of a let or of a function is a script of its own, and
what a script goes on with may depend on the outcome of a call, whether that has failed or not. Wherever
a script comes to ask for a name, it gets the innermost binder around that place. -/
namespace QueryFunctions

inductive Script where
  | ret (result : Except QueryError Expr)
  | var (name : String) (next : Except QueryError Expr → Script)
  | letIn (name : String) (value : Expr) (body : Script) (next : Except QueryError Expr → Script)
  | function (signature : Signature) (body : Script) (next : Except QueryError Expr → Script)
  | declare (signature : Signature) (body : Script) (next : Except QueryError FuncId → Script)

namespace Script

def run : Script → Build Expr
  | .ret result => ofExcept result
  | .var name next => do (next (← Build.attempt (Build.reference name))).run
  | .letIn name value body next => do
    (next (← Build.attempt (Build.letIn name value body.run))).run
  | .function signature body next => do
    (next (← Build.attempt (Build.function signature body.run))).run
  | .declare signature body next => do
    (next (← Build.attempt (Build.declare signature body.run))).run

/-- Run from `s` among the binders `around`, a script comes to run `q` from `u` among the binders
`there`. A declared function has none around. -/
inductive Reaches (q : Script) (there : Surroundings) (u : BuildState) :
    Script → Surroundings → BuildState → Prop
  | here : Reaches q there u q there u
  | var {name next around s result t} :
    Build.reference name s = (.ok result, t) → Reaches q there u (next result) around t →
    Reaches q there u (.var name next) around s
  | inLet {name value body next own around s} :
    Reaches q there u body (((name, ⟨s.supply.nextVar⟩) :: own) :: around) (s.inLet name) →
    Reaches q there u (.letIn name value body next) (own :: around) s
  | letIn {name value body next around s result t} :
    Build.letIn name value body.run s = (.ok result, t) →
    Reaches q there u (next result) around t →
    Reaches q there u (.letIn name value body next) around s
  | inFunction {signature body next around s} :
    Reaches q there u body (s.binders signature true :: around) (s.inFunction signature true) →
    Reaches q there u (.function signature body next) around s
  | function {signature body next around s result t} :
    Build.function signature body.run s = (.ok result, t) →
    Reaches q there u (next result) around t →
    Reaches q there u (.function signature body next) around s
  | inDeclared {signature body next around s} : signature.name.isSome →
    Reaches q there u body [s.binders signature false] (s.inFunction signature false) →
    Reaches q there u (.declare signature body next) around s
  | declare {signature body next around s result t} :
    Build.declare signature body.run s = (.ok result, t) →
    Reaches q there u (next result) around t →
    Reaches q there u (.declare signature body next) around s

/-- What the first call of a script does among the binders `there`. A variable stands for the innermost
binder of its name, and goes on to do so until the body that asks for it is done. What the body of a let or
of a function has captured in the frames around stays captured there. -/
def Lexical (there : Surroundings) (u : BuildState) : Script → Prop
  | .ret _ => True
  | .var name next =>
    match there.lookup name with
    | none => Build.reference name u = (.ok (.error (.unknownVariable name u.span)), u)
    | some (n, binder) => ∃ ref t result last,
      Build.reference name u = (.ok (.ok (.var ref)), t) ∧ u.Retains t ∧
        Frame.Stands t.frames ref.id n binder ∧
        (next (.ok (.var ref))).run t = (.ok result, last) ∧ Frame.Stands last.frames ref.id n binder
  | .letIn name value body _ => ∃ result inner slot t, body.run (u.inLet name) = (.ok result, inner) ∧
      Build.letIn name value body.run u =
        (.ok (result.map (.letIn ⟨u.supply.nextVar⟩ slot value)), t) ∧ u.Retains t ∧
      t.frame.captures = inner.frame.captures ∧ t.outer = inner.outer
  | .function signature body _ => ∃ result inner t,
      body.run (u.inFunction signature true) = (.ok result, inner) ∧ u.Retains t ∧
      t.frames = inner.outer ∧ match result with
      | .error e => Build.function signature body.run u = (.ok (.error e), t)
      | .ok e => (inner.frame.captures.map Prod.fst).Nodup ∧
        (inner.frame.captures.map Prod.snd).Nodup ∧
        ∃ c, Build.function signature body.run u = (.ok (.ok (.closure c)), t) ∧
          c.params = u.paramsOf signature true ∧ c.body = e ∧
          Build.Supplies inner.frame.captures c.captures
  | .declare signature body _ => ∃ result t,
      Build.declare signature body.run u = (.ok result, t) ∧ u.Retains t

variable {p q : Script} {there around : Surroundings} {s u : BuildState}

theorem run_attempt {α : Type} {act : Build α} {next : Except QueryError α → Script}
    (hact : Build.Orderly act s) (hnext : ∀ result t, t.Tidy → Build.Orderly (next result).run t) :
    Build.Orderly (do (next (← Build.attempt act)).run) s := by
  obtain ⟨result, t, ran, tidy, retains⟩ := hact
  obtain ⟨last, u, rest, tidy', retains'⟩ := hnext result t tidy
  refine ⟨last, u, ?_, tidy', retains.trans retains'⟩
  have attempted : Build.attempt act s = (.ok (.ok result), t) := by
    unfold Build.attempt
    rw [ran]
    rfl
  rw [Build.run_bind, attempted]
  exact rest

theorem run_orderly (p : Script) : ∀ s : BuildState, s.Tidy → Build.Orderly p.run s := by
  induction p with
  | ret result =>
    intro s hs
    refine ⟨result, s, ?_, hs, .refl s⟩
    cases result <;> rfl
  | var name next ih =>
    exact fun s hs => run_attempt (Build.reference_orderly hs name) ih
  | letIn name value body next inner ih =>
    intro s hs
    exact run_attempt (Build.letIn_orderly hs name value (inner _ (hs.inLet name).1)) ih
  | function signature body next inner ih =>
    intro s hs
    exact run_attempt (Build.function_orderly hs signature (inner _ (hs.inFunction signature true).1)) ih
  | declare signature body next inner ih =>
    intro s hs
    exact run_attempt (Build.declare_lexical hs signature (inner _ (hs.inFunction signature false).1)) ih

theorem Reaches.surroundings (h : Reaches q there u p around s) (hs : s.Tidy)
    (same : Frame.surroundings s.frames = around) : u.Tidy ∧ Frame.surroundings u.frames = there := by
  induction h with
  | here => exact ⟨hs, same⟩
  | @var name _ _ _ _ _ ran _ ih =>
    obtain ⟨tidy, kept⟩ := (Build.reference_orderly hs name).after ran
    exact ih tidy (kept.trans same)
  | @inLet name _ _ _ _ _ s _ ih =>
    obtain ⟨tidy, binders⟩ := hs.inLet name
    refine ih tidy ?_
    obtain ⟨own, rest⟩ := List.cons.inj (s.surroundings_frames.symm.trans same)
    rw [BuildState.surroundings_frames, binders, own, ← rest]
    rfl
  | @letIn name value body _ _ s _ _ ran _ ih =>
    obtain ⟨tidy, kept⟩ :=
      (Build.letIn_orderly hs name value (body.run_orderly _ (hs.inLet name).1)).after ran
    exact ih tidy (kept.trans same)
  | @inFunction signature _ _ _ s _ ih =>
    obtain ⟨tidy, binders, capturing, -⟩ := hs.inFunction signature true
    refine ih tidy ?_
    rw [BuildState.surroundings_frames, binders, capturing, ← same]
    rfl
  | @function signature body _ _ s _ _ ran _ ih =>
    obtain ⟨tidy, kept⟩ := (Build.function_orderly hs signature
      (body.run_orderly _ (hs.inFunction signature true).1)).after ran
    exact ih tidy (kept.trans same)
  | @inDeclared signature _ _ _ s _ _ ih =>
    obtain ⟨tidy, binders, capturing, -⟩ := hs.inFunction signature false
    refine ih tidy ?_
    rw [BuildState.surroundings_frames, binders, capturing]
    rfl
  | @declare signature body _ _ s _ _ ran _ ih =>
    obtain ⟨tidy, kept⟩ := (Build.declare_lexical hs signature
      (body.run_orderly _ (hs.inFunction signature false).1)).after ran
    exact ih tidy (kept.trans same)

end Script

/-- Names stand for what lexical scoping tells, wherever a script asks for them. -/
theorem names_resolve_lexically {p q : Script} {there : Surroundings} {u : BuildState}
    (reached : Script.Reaches q there u p [[]] {}) : q.Lexical there u := by
  obtain ⟨tidy, same⟩ := reached.surroundings .empty rfl
  cases q with
  | ret => trivial
  | var name next =>
    have known := Build.reference_lexical tidy name
    rw [same] at known
    cases looked : there.lookup name with
    | none =>
      rw [looked] at known
      simp only [Script.Lexical, looked]
      exact known
    | some binder =>
      rw [looked] at known
      simp only [Script.Lexical, looked]
      obtain ⟨ref, t, ran, tidy, retains, stands⟩ := known
      obtain ⟨result, last, rest, tidy', retains'⟩ := (next (.ok (.var ref))).run_orderly t tidy
      exact ⟨ref, t, result, last, ran, retains, stands, rest, stands.retained retains'.frames tidy'.tidy⟩
  | letIn name value body next =>
    obtain ⟨result, inner, slot, t, ran, whole, captures, outer, -, retains⟩ :=
      Build.letIn_lexical tidy name value (body.run_orderly _ (tidy.inLet name).1)
    exact ⟨result, inner, slot, t, ran, whole, retains, captures, outer⟩
  | function signature body next =>
    obtain ⟨result, inner, t, ran, -, retains, frames, whole⟩ :=
      Build.function_lexical tidy signature (body.run_orderly _ (tidy.inFunction signature true).1)
    exact ⟨result, inner, t, ran, retains, frames, whole⟩
  | declare signature body next =>
    obtain ⟨result, t, ran, -, retains⟩ :=
      Build.declare_lexical tidy signature (body.run_orderly _ (tidy.inFunction signature false).1)
    exact ⟨result, t, ran, retains⟩

/-- Two functions inside a let, the outer one with equal parameters. A let has failed before. -/
def Script.nested : Script :=
  .letIn "x" (.value (.int 1))
    (.letIn "y" (.value (.int 2)) (.ret (.error .namelessDeclaration)) fun _ =>
      .function { params := [("y", none), ("y", none)] }
        (.function { params := [("z", none)] } (.var "x" fun _ => .var "y" .ret) .ret) .ret) .ret

/-- The inner function finds the let two functions further out, and then the last parameter. -/
theorem nested_names_resolve : ∃ u v,
    Script.Reaches (.var "x" fun _ => .var "y" .ret)
      [[("z", ⟨4⟩)], [("y", ⟨3⟩), ("y", ⟨2⟩)], [("x", ⟨0⟩)]] u .nested [[]] {} ∧
    Script.Reaches (.var "y" .ret)
      [[("z", ⟨4⟩)], [("y", ⟨3⟩), ("y", ⟨2⟩)], [("x", ⟨0⟩)]] v .nested [[]] {} ∧
    (∃ ref t, Build.reference "x" u = (.ok (.ok (.var ref)), t) ∧ Frame.Stands t.frames ref.id 2 ⟨0⟩) ∧
    (∃ ref t, Build.reference "y" v = (.ok (.ok (.var ref)), t) ∧ Frame.Stands t.frames ref.id 1 ⟨3⟩) := by
  have first : Script.Reaches (.var "x" fun _ => .var "y" .ret)
      [[("z", ⟨4⟩)], [("y", ⟨3⟩), ("y", ⟨2⟩)], [("x", ⟨0⟩)]] _ .nested [[]] {} :=
    .inLet (.letIn rfl (.inFunction (.inFunction .here)))
  have second : Script.Reaches (.var "y" .ret)
      [[("z", ⟨4⟩)], [("y", ⟨3⟩), ("y", ⟨2⟩)], [("x", ⟨0⟩)]] _ .nested [[]] {} :=
    .inLet (.letIn rfl (.inFunction (.inFunction (.var rfl .here))))
  obtain ⟨ref, t, -, -, run, -, stands, -⟩ := names_resolve_lexically first
  obtain ⟨ref', t', -, -, run', -, stands', -⟩ := names_resolve_lexically second
  exact ⟨_, _, first, second, ⟨ref, t, run, stands⟩, ⟨ref', t', run', stands'⟩⟩

end QueryFunctions
