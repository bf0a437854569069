import QueryFunctions.Proofs.Run.Brackets
import QueryFunctions.Run.Evaluation

/-! The place where a function item is called makes no difference but to the errors that tell it. -/
namespace QueryFunctions

def QueryError.unplaced : QueryError → QueryError
  | .arity name expected actual _ => .arity name expected actual .synthetic
  | .resolution name n suggestion _ => .resolution name n suggestion .synthetic
  | .notUpdating message _ => .notUpdating message .synthetic
  | .updatingExpected message _ => .updatingExpected message .synthetic
  | .duplicate name n _ => .duplicate name n .synthetic
  | .unknownVariable name _ => .unknownVariable name .synthetic
  | .type message _ => .type message .synthetic
  | .dynamic code message _ => .dynamic code message .synthetic
  | .user message _ => .user message .synthetic
  | .cancelled => .cancelled
  | .stackOverflow depth => .stackOverflow depth
  | .config message => .config message

namespace Run

variable {α β : Type}

/-- The same value, the same fault, or the same error but for its place, and the same last state. -/
inductive Agree : Except Fault (Except QueryError α) × RunState →
    Except Fault (Except QueryError α) × RunState → Prop
  | value {a t} : Agree (.ok (.ok a), t) (.ok (.ok a), t)
  | error {e e' t} : e'.unplaced = e.unplaced → Agree (.ok (.error e), t) (.ok (.error e'), t)
  | fault {f t} : Agree (.error f, t) (.error f, t)

theorem Agree.refl (p : Except Fault (Except QueryError α) × RunState) : Agree p p := by
  rcases p with ⟨f | e | a, t⟩
  · exact .fault
  · exact .error rfl
  · exact .value

theorem Agree.fst_of_value {p q : Except Fault (Except QueryError α) × RunState} {a : α}
    (h : Agree p q) (value : p.1 = .ok (.ok a)) : q.1 = .ok (.ok a) := by
  cases h with
  | value => exact value
  | error _ => cases value
  | fault => cases value

theorem Agree.leaving {leave : RunState → RunState} {p q : Except Fault (Except QueryError α) × RunState}
    (h : Agree p q) : Agree (Run.leaving leave p) (Run.leaving leave q) := by
  cases h with
  | value => exact .value
  | error same => exact .error same
  | fault => exact .fault

def Likewise (act act' : Run α) : Prop := ∀ r s, Agree (act r s) (act' r s)

namespace Likewise

theorem refl (act : Run α) : Likewise act act := fun _ _ => .refl _

theorem throw {e e' : QueryError} (same : e'.unplaced = e.unplaced) :
    Likewise (throw e : Run α) (throw e') := fun _ _ => .error same

theorem bind {act act' : Run α} {next next' : α → Run β} (first : Likewise act act')
    (second : ∀ a, Likewise (next a) (next' a)) : Likewise (act >>= next) (act' >>= next') := by
  intro r s
  have ended := first r s
  rw [Computation.run_bind, Computation.run_bind]
  generalize act r s = p at ended ⊢
  generalize act' r s = q at ended ⊢
  cases ended with
  | value => exact second _ r _
  | error same => exact .error same
  | fault => exact .fault

theorem ite {p : Prop} [Decidable p] {yes yes' no no' : Run α} (hyes : Likewise yes yes')
    (hno : Likewise no no') : Likewise (if p then yes else no) (if p then yes' else no') := by
  split
  · exact hyes
  · exact hno

theorem mapM {f g : α → Run β} (each : ∀ a, Likewise (f a) (g a)) (as : List α) :
    Likewise (as.mapM f) (as.mapM g) := by
  induction as with
  | nil => exact refl _
  | cons a as ih =>
    rw [List.mapM_cons, List.mapM_cons]
    exact (each a).bind fun _ => ih.bind fun _ => refl _

theorem foldlM {f g : β → α → Run β} (each : ∀ b a, Likewise (f b a) (g b a)) (as : List α) (b : β) :
    Likewise (as.foldlM f b) (as.foldlM g b) := by
  induction as generalizing b with
  | nil => exact refl _
  | cons a as ih =>
    rw [List.foldlM_cons, List.foldlM_cons]
    exact (each b a).bind fun b => ih b

theorem filterM {f g : α → Run Bool} (each : ∀ a, Likewise (f a) (g a)) (as : List α) :
    Likewise (as.filterM f) (as.filterM g) := by
  have gathering : ∀ as acc, Likewise (List.filterAuxM f as acc) (List.filterAuxM g as acc) := by
    intro as
    induction as with
    | nil => exact fun acc => refl _
    | cons a as ih => exact fun acc => (each a).bind fun _ => ih _
  exact (gathering as []).bind fun _ => refl _

theorem nested {act act' : Run α} (h : Likewise act act') :
    Likewise (Run.nested act) (Run.nested act') := by
  intro r s
  rw [nested_run, nested_run]
  split
  · exact .refl _
  · exact (h r s.deeper).leaving

theorem inFrame (size : Nat) {act act' : Run α} (h : Likewise act act') :
    Likewise (Run.inFrame size act) (Run.inFrame size act') := by
  intro r s
  rw [inFrame_run, inFrame_run]
  exact (h r (s.pushed size)).leaving

theorem asFunc (v : Value) (place place' : Span) :
    Likewise (ofExcept (v.asFunc place)) (ofExcept (v.asFunc place')) := by
  cases v with
  | func f => exact refl _
  | _ => exact throw rfl

theorem asInt (v : Value) (place place' : Span) :
    Likewise (ofExcept (v.asInt place)) (ofExcept (v.asInt place')) := by
  cases v with
  | int i => exact refl _
  | _ => exact throw rfl

theorem bindParams (function : String) (place place' : Span) :
    ∀ (vs : List Variable) (args : List Value),
      Likewise (Run.bindParams function place vs args) (Run.bindParams function place' vs args)
  | [], _ => refl _
  | _ :: _, [] => refl _
  | v :: vs, arg :: args => by
    have rest : Likewise (do Run.set v.slot arg; Run.bindParams function place vs args)
        (do Run.set v.slot arg; Run.bindParams function place' vs args) :=
      (refl _).bind fun _ => bindParams function place place' vs args
    unfold Run.bindParams
    split
    · exact ite (bind (throw rfl) fun _ => rest) rest
    · exact rest

end Likewise

/-- A caller that function items may be called by from anywhere. -/
def Placeless (call : Caller) : Prop := ∀ f args place place',
  Likewise (call (.callback f args place)) (call (.callback f args place'))

section

variable {call : Caller} (calls : Placeless call)

include calls

theorem test_likewise (f : FuncItem) (place place' : Span) (v : Value) :
    Likewise (Builtin.test call.invoke f place v) (Builtin.test call.invoke f place' v) := by
  refine (calls f [v] place place').bind fun w => ?_
  split
  · exact .refl _
  · exact .throw rfl

theorem apply_likewise (b : Builtin) (args : List Value) (place place' : Span) :
    Likewise (b.apply call.invoke args place) (b.apply call.invoke args place') := by
  unfold Builtin.apply
  split
  · exact (Likewise.asFunc _ _ _).bind fun f =>
      (Likewise.mapM (fun v => calls f [v] place place') _).bind fun _ => .refl _
  · exact (Likewise.asFunc _ _ _).bind fun f =>
      (Likewise.filterM (test_likewise calls f place place') _).bind fun _ => .refl _
  · exact (Likewise.asFunc _ _ _).bind fun f =>
      Likewise.foldlM (fun acc v => calls f [acc, v] place place') _ _
  · exact (Likewise.asFunc _ _ _).bind fun _ => .refl _
  · exact (Likewise.asFunc _ _ _).bind fun _ => .refl _
  · exact .refl _
  · exact (Likewise.asInt _ _ _).bind fun _ => .refl _
  · exact .throw rfl
  · exact .refl _
  · exact .throw rfl

theorem stepItem_likewise (f : FuncItem) (args : List Value) (place place' : Span) :
    Likewise (stepItem call f args place) (stepItem call f args place') := by
  unfold stepItem
  generalize f.code = code
  cases code with
  | builtin b =>
    have rest := (apply_likewise calls b args place place').bind fun v => .refl (pure (Flow.done v))
    exact .ite (.bind (.throw rfl) fun _ => rest) rest
  | closure params captured body scope =>
    have entered := (Likewise.refl (captured.forM fun q => set q.1.slot q.2)).bind fun _ =>
      (Likewise.bindParams f.text place place' params args).bind fun _ =>
        .refl (withoutFocus (body.evaluateTail call))
    exact .ite (.bind (.throw rfl) fun _ => .inFrame _ entered) (.inFrame _ entered)

end

/-- What is left to do after a step does not depend on the place of the call, and calls that are made
within the step have less of the budget. -/
theorem loop_placeless (budget : Nat) : Placeless fun next => loop budget next := by
  induction budget with
  | zero => exact fun _ _ _ _ => .refl _
  | succ budget ih =>
    intro f args place place'
    have calls : Placeless fun inner => nested (loop budget inner) :=
      fun f args place place' => (ih f args place place').nested
    exact (Likewise.refl checkInterrupt).bind fun _ =>
      (stepItem_likewise calls f args place place').bind fun flow => .refl _

theorem loop_item (budget : Nat) (f : FuncItem) (args : List Value) (place : Span) :
    loop budget (.item f args place) = loop budget (.callback f args place) := by
  cases budget <;> rfl

theorem call_placeless (budget : Nat) : Placeless (call budget) := fun f args place place' =>
  (loop_placeless budget f args place place').nested

end Run

end QueryFunctions
