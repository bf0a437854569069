import Mathlib
import QueryFunctions.Proofs.Query.Checking
import QueryFunctions.Proofs.Run.Discipline

/-! The update discipline of query units. A function that is not annotated updating asks for no update
but through the callbacks of a built-in that was given an updating function: those are made without
the check that other calls make. -/
namespace QueryFunctions

namespace Query

/-- What functions, values and states of a unit keep when it is run. -/
def ruling (q : Query) (budget : Nat) : Standard :=
  (q.standard True False).drawing (q.compile budget).2.registry.Draws

theorem Built.runs {q : Query} (built : q.Built) (unmixed : q.options.mixedUpdates = false)
    {budget : Nat} (compiled : (q.compile budget).1 = .ok (.ok ())) :
    (q.compile budget).2.registry.Runs (q.ruling budget) := by
  have ready : (q.compile budget).2.Ready (q.standard True False) :=
    built.ready compiled fun _ => unmixed
  exact ready.functions.runs

theorem unmixed_setting {q : Query} (unmixed : q.options.mixedUpdates = false) (budget : Nat) :
    (q.compile budget).2.setting.options.mixedUpdates = false := by
  change (q.compile budget).2.options.mixedUpdates = false
  rw [options_compile, unmixed]

end Query

theorem RunState.meets_start {d : Standard} (supply : Supply) (options : Options) (host : Host)
    {focus : Option Value} (hfocus : ∀ v, focus = some v → v.Meets d) :
    (RunState.start supply options host focus).Meets d :=
  ⟨fun v mem => by simp [RunState.start] at mem, hfocus⟩

variable {options : Options} {requests : List BuildStep} {q : Query} {budget steps : Nat}
  {s t : RunState}

/-- A call of a function that is not annotated updating leaves the updates as they are, if it makes no
callback of a function that is. -/
theorem call_keeps_updates (made : Query.build options requests = .ok q)
    (unmixed : options.mixedUpdates = false) (compiled : (q.compile budget).1 = .ok (.ok ()))
    (hs : s.Meets (q.ruling budget)) {next : PendingCall} (hnext : next.Meets (q.ruling budget) .all)
    (quiet : next.updating q.registry.isUpdating = false)
    (avoids : Run.Avoids PendingCall.updatesBack (fun call => call next) steps
      (q.compile budget).2.setting s)
    {result : Except QueryError Value}
    (run : Run.call steps next (q.compile budget).2.setting s = (.ok result, t)) :
    t.updates = s.updates ∧ t.Meets (q.ruling budget) ∧
      ∀ v, result = .ok v → v.Meets (q.ruling budget) := by
  obtain ⟨built, rfl⟩ := Query.built_of_build made
  have kept := Run.call_quiet (fun _ => Query.unmixed_setting unmixed budget)
    (built.runs unmixed compiled) trivial hs hnext quiet avoids
  obtain ⟨ht, hst, value⟩ := kept _ _ run
  exact ⟨hst.updates_eq id, ht, value⟩

/-- A function that maps a built-in over its argument, and a call of it. -/
def mapping (name : String) : List BuildStep :=
  [.declare { name := some "f", params := [("x", none)] }
      (.call "for-each" [.var "x", .literal name 1]),
    .main (.call "f" [.seq [.datum (.int 1), .datum (.int 2)]])]

def mappingCall : PendingCall := .registered ⟨0⟩ [.seq [.int 1, .int 2]] .synthetic

theorem mappingCall_meets {q : Query} (mentioned : q.registry.Mentions ⟨0⟩) :
    mappingCall.Meets (q.ruling budget) .all := by
  refine ⟨mentioned, fun _ => trivial, fun _ => trivial, fun v mem => ?_⟩
  rw [List.mem_singleton.1 mem, Value.Meets, valuesMeet_iff]
  simp [Value.Meets]

def counting : Sample {} where
  requests := mapping "count"
  made := by cbv
  compiled := by cbv

theorem counting_avoids : Run.Avoids PendingCall.updatesBack (fun call => call mappingCall) 9
    (counting.query.compile 9).2.setting counting.start := by
  intro other
  cbv

theorem counting_ends : (Run.call 9 mappingCall (counting.query.compile 9).2.setting
    counting.start).1 = .ok (.ok (.seq [.int 1, .int 1])) := by cbv

theorem call_keeps_updates_counting : (Run.call 9 mappingCall
    (counting.query.compile 9).2.setting counting.start).2.updates = [] := by
  have called : (counting.query.registry.find? ⟨0⟩).any (!·.calls.isEmpty) = true := by cbv
  have quiet : mappingCall.updating counting.query.registry.isUpdating = false := by cbv
  have start : counting.start.Meets (counting.query.ruling 9) := RunState.meets_start _ _ _ (by simp)
  have run := eq_of_fst_eq counting_ends
  have kept := call_keeps_updates counting.made rfl counting.compiled start
    (mappingCall_meets (Registry.mentions_of_any called)) quiet counting_avoids run
  exact kept.1

def outputting : Sample {} where
  requests := mapping "output"
  made := by cbv
  compiled := by cbv

theorem outputting_call : (fun x : _ × RunState => (x.1, x.2.updates))
    (Run.call 9 mappingCall (outputting.query.compile 9).2.setting outputting.start) =
      (.ok (.ok .empty), [.int 1, .int 2]) := by cbv

/-- Without the condition on callbacks the discipline is broken. -/
theorem not_call_keeps_updates : ¬∀ (requests : List BuildStep) (q : Query) (budget steps : Nat)
    (next : PendingCall) (s t : RunState) (result : Except QueryError Value),
    Query.build {} requests = .ok q → (q.compile budget).1 = .ok (.ok ()) →
    s.Meets (q.ruling budget) → next.Meets (q.ruling budget) .all →
    next.updating q.registry.isUpdating = false →
    Run.call steps next (q.compile budget).2.setting s = (.ok result, t) →
    t.updates = s.updates := by
  intro all
  obtain ⟨ends, updates⟩ := Prod.mk.inj outputting_call
  have called : (outputting.query.registry.find? ⟨0⟩).any (!·.calls.isEmpty) = true := by cbv
  have quiet : mappingCall.updating outputting.query.registry.isUpdating = false := by cbv
  have start : outputting.start.Meets (outputting.query.ruling 9) :=
    RunState.meets_start _ _ _ (by simp)
  have kept := all _ _ _ _ _ _ _ _ outputting.made outputting.compiled start
    (mappingCall_meets (Registry.mentions_of_any called)) quiet (eq_of_fst_eq ends)
  cases updates.symm.trans kept

end QueryFunctions
