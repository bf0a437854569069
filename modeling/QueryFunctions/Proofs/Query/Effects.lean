import QueryFunctions.Proofs.Query.Discipline

/-! What the flags of compiled code say of its effects. They know of the functions that code calls by
name and of nothing else: a function item may draw random numbers whoever calls it, and one that is
updating may be called back by a built-in. -/
namespace QueryFunctions

namespace Query

/-- Code of a compiled unit: a node of the main expression or of a function that is mentioned. -/
def Contains (q : Query) (budget : Nat) (e : Expr) : Prop :=
  e ∈ (q.compile budget).2.main.nodes ∨
    ∃ id entry body, q.registry.Mentions id ∧ (q.compile budget).2.registry.find? id = some entry ∧
      entry.body = some body ∧ e ∈ body.nodes

theorem Built.flagged {q : Query} (built : q.Built) (unmixed : q.options.mixedUpdates = false)
    {budget : Nat} (compiled : (q.compile budget).1 = .ok (.ok ())) {e : Expr}
    (he : q.Contains budget e) : e.Flagged (q.ruling budget) := by
  have ready : (q.compile budget).2.Ready (q.standard True False) :=
    built.ready compiled fun _ => unmixed
  rcases he with mem | ⟨id, entry, body, mentioned, found, present, mem⟩
  · exact Expr.flagged_of_mem_nodes trivial ready.main mem
  · exact Expr.flagged_of_mem_nodes trivial
      (ready.functions id entry body mentioned found present) mem

end Query

variable {options : Options} {requests : List BuildStep} {q : Query} {budget : Nat} {s : RunState}

/-- Code that is not flagged updating leaves the updates as they are, if it makes no callback of an
updating function; and code that is not flagged non-deterministic leaves the random generator as it
is, if it calls no function item. -/
theorem flags_sound (made : Query.build options requests = .ok q)
    (unmixed : options.mixedUpdates = false) (compiled : (q.compile budget).1 = .ok (.ok ()))
    {e : Expr} (he : q.Contains budget e) (hs : s.Meets (q.ruling budget)) (steps : Nat) :
    (e.has .upd = false →
      Run.Avoids PendingCall.updatesBack (fun call => e.evaluate call) steps
        (q.compile budget).2.setting s →
      ∀ result t, Run.evaluate steps e (q.compile budget).2.setting s =
        (.ok result, t) → t.updates = s.updates) ∧
    (e.has .ndt = false →
      Run.Avoids PendingCall.ofItem (fun call => e.evaluate call) steps
        (q.compile budget).2.setting s →
      ∀ result t, Run.evaluate steps e (q.compile budget).2.setting s =
        (.ok result, t) → t.random = s.random) := by
  obtain ⟨built, rfl⟩ := Query.built_of_build made
  have setting := Query.unmixed_setting unmixed budget
  have functions := built.runs unmixed compiled
  have flagged := built.flagged unmixed compiled he
  constructor
  · intro quiet avoids result t run
    exact Run.evaluate_quiet (fun _ => setting) functions trivial hs flagged quiet avoids run
  · intro deterministic avoids result t run
    exact Run.evaluate_deterministic (fun _ => setting) functions hs flagged deterministic avoids run

/-- The unit whose main expression adds one to 41, by a call that is not expanded. -/
def adding : Sample { inlineLimit := 0 } where
  requests :=
    [.declare { name := some "f", params := [("x", none)] }
        (.arith .add (.var "x") (.datum (.int 1))),
      .main (.call "f" [.datum (.int 41)])]
  made := by cbv
  compiled := by cbv

theorem adding_ends : (Run.evaluate 9 (adding.query.compile 9).2.main
    (adding.query.compile 9).2.setting adding.start).1 = .ok (.ok (.int 42)) := by cbv

theorem adding_avoids_callbacks : Run.Avoids PendingCall.updatesBack
    (fun call => (adding.query.compile 9).2.main.evaluate call) 9
    (adding.query.compile 9).2.setting adding.start := by
  intro other
  cbv

theorem adding_avoids_items : Run.Avoids PendingCall.ofItem
    (fun call => (adding.query.compile 9).2.main.evaluate call) 9
    (adding.query.compile 9).2.setting adding.start := by
  intro other
  cbv

theorem flags_sound_adding :
    (Run.evaluate 9 (adding.query.compile 9).2.main (adding.query.compile 9).2.setting
      adding.start).2.updates = [] ∧
    (Run.evaluate 9 (adding.query.compile 9).2.main (adding.query.compile 9).2.setting
      adding.start).2.random = adding.start.random := by
  have quiet : (adding.query.compile 9).2.main.has .upd = false := by cbv
  have deterministic : (adding.query.compile 9).2.main.has .ndt = false := by cbv
  have start : adding.start.Meets (adding.query.ruling 9) := RunState.meets_start _ _ _ (by simp)
  have sound := flags_sound adding.made rfl adding.compiled (.inl (Expr.mem_nodes_self _)) start 9
  exact ⟨sound.1 quiet adding_avoids_callbacks _ _ (eq_of_fst_eq adding_ends),
    sound.2 deterministic adding_avoids_items _ _ (eq_of_fst_eq adding_ends)⟩

/-- The unit whose main expression asks for an update with each of two items, by a callback. -/
def calling : Sample {} where
  requests :=
    [.main (.call "for-each" [.seq [.datum (.int 1), .datum (.int 2)], .literal "output" 1])]
  made := by cbv
  compiled := by cbv

theorem calling_run : (fun x : _ × RunState => (x.1, x.2.updates))
    (Run.evaluate 9 (calling.query.compile 9).2.main (calling.query.compile 9).2.setting
      calling.start) = (.ok (.ok .empty), [.int 1, .int 2]) := by cbv

/-- Without the conditions on calls the flags are not sound. -/
theorem not_flags_sound : ¬∀ (requests : List BuildStep) (q : Query) (budget steps : Nat) (e : Expr)
    (s t : RunState) (result : Except QueryError Value),
    Query.build {} requests = .ok q → (q.compile budget).1 = .ok (.ok ()) →
    q.Contains budget e → s.Meets (q.ruling budget) →
    Run.evaluate steps e (q.compile budget).2.setting s = (.ok result, t) →
    (e.has .upd = false → t.updates = s.updates) ∧ (e.has .ndt = false → t.random = s.random) := by
  intro all
  obtain ⟨ends, updates⟩ := Prod.mk.inj calling_run
  have quiet : (calling.query.compile 9).2.main.has .upd = false := by cbv
  have start : calling.start.Meets (calling.query.ruling 9) := RunState.meets_start _ _ _ (by simp)
  have kept := (all _ _ _ _ _ _ _ _ calling.made calling.compiled
    (.inl (Expr.mem_nodes_self _)) start (eq_of_fst_eq ends)).1 quiet
  cases updates.symm.trans kept

end QueryFunctions
