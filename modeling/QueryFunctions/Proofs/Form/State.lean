import QueryFunctions.Compile.Basic
import QueryFunctions.Proofs.Form.Basic
import QueryFunctions.Proofs.Law.Compiling
import QueryFunctions.Proofs.Registry.Stages

/-! The contract of a compilation: the bodies in the registry are well formed, what may be called is
there to be called, and exactly the functions that are known to be in the making are marked so. The
scope at hand gives out no slot that is spared. -/
namespace QueryFunctions

def Place.within (p : Place) (s : CompileState) : Place :=
  { p with scope := s.scope, supply := s.supply }

theorem Place.claims_within (p : Place) {s t : CompileState} (same : t.scope = s.scope) :
    (p.within t).claims = (p.within s).claims := by
  unfold claims within
  rw [same]

/-- The place of a function body. Once that is compiled, the flags of the function say whether it may ask
for the focus. -/
def Entry.place (e : Entry) (supply : Supply) : Place :=
  { Place.ofBody e.scope e.params [] supply with focus := e.stage = .compiled → e.flags.ctx = true }

structure Entry.Formed (w : World) (supply : Supply) (e : Entry) : Prop where
  arity : e.params.length = e.arity
  scope : ∀ body, e.body = some body → e.scope.Serves supply e.params []
  body : ∀ body, e.body = some body → body.Formed w (e.place supply)
  present : e.stage = .pending ∨ e.stage = .compiled → e.body.isSome = true
  absent : e.stage ≠ .pending → e.stage ≠ .compiled → e.body = none
  failed : ∀ err, e.stage = .failed err → w.error err
  /-- Nobody compiles a function that is not mentioned anywhere. -/
  called : e.stage ≠ .pending → e.calls ≠ []

theorem Entry.Formed.mono {w : World} {supply supply' : Supply} {e : Entry} (h : e.Formed w supply)
    (le : supply.nextVar ≤ supply'.nextVar) : e.Formed w supply' :=
  { h with
    scope := fun body present => (h.scope body present).mono le
    body := fun body present => (h.body body present).mono ⟨.refl _, le, id, id, id, .inl⟩ }

namespace CompileState

/-- `busy` are the functions in the making. -/
structure Formed (w : World) (busy : FuncId → Prop) (reserve : Reserve) (s : CompileState) :
    Prop where
  functions : ∀ id e, s.registry.find? id = some e → e.Formed w s.supply
  called : ∀ {id n}, w.calls id n → ∃ e, s.registry.find? id = some e ∧ e.arity = n ∧ e.calls ≠ []
  scope : s.scope.Sound s.supply
  spared : ∀ slot, reserve.spared slot → s.scope.Taken slot
  outer : ∀ id, reserve.outer id → id.index < s.supply.nextVar
  busy : ∀ id e, s.registry.find? id = some e → (e.stage = .compiling ↔ busy id)

/-- Scopes only grow, by variables that are drawn for them, and the registry goes its way. -/
structure Grows (s t : CompileState) : Prop where
  scope : t.scope.Extends s.scope
  supply : s.supply.nextVar ≤ t.supply.nextVar
  registry : s.registry.Proceeds t.registry
  fresh : ∀ x ∈ t.scope.layout, x ∈ s.scope.layout ∨ s.supply.nextVar ≤ x.1.index

namespace Grows

variable {s t u : CompileState} {p : Place} {w : World}

theorem refl (s : CompileState) : Grows s s := ⟨.refl _, Nat.le_refl _, .refl, fun _ => .inl⟩

theorem trans (first : Grows s t) (second : Grows t u) : Grows s u :=
  ⟨second.scope.trans first.scope, Nat.le_trans first.supply second.supply,
    first.registry.trans second.registry, fun x mem => (second.fresh x mem).elim (first.fresh x)
      fun new => .inr (Nat.le_trans first.supply new)⟩

theorem claims (h : Grows s t) (p : Place) {id : VarId} (claimed : (p.within t).claims id) :
    (p.within s).claims id ∨ s.supply.nextVar ≤ id.index := by
  rcases claimed with outer | own
  · exact .inl (.inl outer)
  · obtain ⟨x, mem, rfl⟩ := List.mem_map.1 own
    exact (h.fresh x mem).imp_left fun old => .inr (List.mem_map_of_mem old)

theorem within_le (h : Grows s t) (p : Place) : p.within s ≤ p.within t :=
  ⟨h.scope, h.supply, id, id, id, h.claims p⟩

theorem formed (h : Grows s t) {e : Expr} (he : e.Formed w (p.within s)) :
    e.Formed w (p.within t) := he.mono (h.within_le p)

theorem all_formed (h : Grows s t) {es : List Expr} (hes : ∀ e ∈ es, e.Formed w (p.within s)) :
    ∀ e ∈ es, e.Formed w (p.within t) := Expr.formed_mono hes (h.within_le p)

end Grows

theorem Formed.callable {w : World} {busy : FuncId → Prop} {reserve : Reserve} {s : CompileState}
    (hs : s.Formed w busy reserve) {id : FuncId} {n : Nat} (calls : w.calls id n) :
    s.registry.Mentions id := by
  obtain ⟨e, found, -, called⟩ := hs.called calls
  exact ⟨e, found, called⟩

theorem Formed.drawn {w : World} {busy : FuncId → Prop} {s : CompileState} (p : Place)
    (hs : s.Formed w busy p.reserve) : (p.within s).Drawn s.supply := by
  rintro id (outer | own)
  · exact hs.outer id outer
  · obtain ⟨x, mem, rfl⟩ := List.mem_map.1 own
    exact hs.scope.fresh x mem

end CompileState

def formContract (w : World) (busy : FuncId → Prop) (reserve : Reserve) :
    Contract CompileState where
  holds := CompileState.Formed w busy reserve
  leads := CompileState.Grows
  refl := CompileState.Grows.refl
  trans := CompileState.Grows.trans
  raises := w.error
  faults := w.faults

/-- Started in `s`, the computation keeps the contract and makes code for the place `p` in the scope at
hand. -/
def Compile.Forms (w : World) (busy : FuncId → Prop) (p : Place) (o : Options) (s : CompileState)
    (act : Compile Expr) : Prop :=
  (formContract w busy p.reserve).Keeps o s act fun e t => e.Formed w (p.within t)

theorem Scope.Serves.grown {s t : Scope} {supply supply' : Supply} {params captured : List VarId}
    (serves : s.Serves supply params captured) (ext : t.Extends s) (sound : t.Sound supply')
    (taken : ∀ slot, (Place.ofBody s params captured supply).spared slot → t.Taken slot) :
    t.Serves supply' params captured ∧
      ∀ {slot}, (Place.ofBody t params captured supply').spared slot →
        (Place.ofBody s params captured supply).spared slot := by
  have back : ∀ {slot}, (Place.ofBody t params captured supply').spared slot →
      (Place.ofBody s params captured supply).spared slot := by
    rintro slot ⟨x, mem, here⟩
    obtain ⟨y, known, rfl⟩ := List.mem_map.1 (serves.known x (.inl mem))
    exact ⟨y.1, mem, sound.slot_eq (ext y known) here ▸ known⟩
  refine ⟨⟨sound, fun x mem => ?_, fun x mem slot here => taken slot (back ⟨x, mem, here⟩)⟩, back⟩
  obtain ⟨y, known, rfl⟩ := List.mem_map.1 (serves.known x mem)
  exact List.mem_map_of_mem (ext y known)

namespace Compile

open Contract CompileState

variable {w : World} {busy : FuncId → Prop} {reserve : Reserve} {p : Place} {o : Options}
  {s : CompileState} {α : Type}

theorem draw_forms (hs : s.Formed w busy reserve) {act : Supplied α} {post : α → Supply → Prop}
    (given : Gives w.faults s.supply act post) :
    (formContract w busy reserve).Keeps o s (draw act) fun a t =>
      post a t.supply ∧ t = { s with supply := t.supply } := by
  refine Keeps.draw given fun supply grows => ⟨?_, .refl _, grows, .refl, fun _ => .inl⟩
  exact { hs with
    functions := fun id e found => (hs.functions id e found).mono grows
    scope := hs.scope.mono grows
    outer := fun id outer => Nat.lt_of_lt_of_le (hs.outer id outer) grows }

theorem entryOf_forms (hs : s.Formed w busy reserve) {id : FuncId} {e : Entry}
    (found : s.registry.find? id = some e) :
    (formContract w busy reserve).Keeps o s (entryOf id) fun x t => x = e ∧ t = s :=
  (Keeps.entryOf hs fun none => by cases found.symm.trans none).mono fun _ _ _ _ ⟨here, same⟩ =>
    ⟨Option.some.inj (here.symm.trans found), same⟩

theorem deferred_forms {q : Place} (hs : s.Formed w busy reserve) {result : Except QueryError Expr}
    (value : ∀ e, result = .ok e → e.Formed w q) (raised : ∀ err, result = .error err → w.error err) :
    (formContract w busy reserve).Keeps o s (deferred result) fun e t => e.Formed w q ∧ t = s :=
  Keeps.deferred hs (fun e same => ⟨value e same, rfl⟩) fun err same =>
    ⟨raised err same, .error (raised err same), rfl⟩

theorem modifyScope_forms (hs : s.Formed w busy reserve) {f : Scope → Scope}
    (layout : (f s.scope).layout = s.scope.layout) (slots : (f s.scope).slots = s.scope.slots) :
    (formContract w busy reserve).Keeps o s (modifyScope f) fun _ t =>
      t = { s with scope := f s.scope } := by
  refine Keeps.of_eq rfl { hs with scope := ?_, spared := fun slot spared => ?_ } ?_ rfl
  · exact hs.scope.of_layout layout (congrArg List.length slots)
  · have taken := hs.spared slot spared
    unfold Scope.Taken at taken ⊢
    rwa [← slots] at taken
  · exact ⟨fun x mem => layout ▸ mem, Nat.le_refl _, .refl, fun x mem => .inl (layout ▸ mem)⟩

/-- The body of another function is made in its own scope, which only gains variables that are drawn for
it, and that scope is given back with what became of it. -/
theorem inScope_forms (hs : s.Formed w busy reserve) {inner : Scope} {params captured : List VarId}
    {outer : VarId → Prop} (serves : inner.Serves s.supply params captured)
    (old : ∀ id, outer id → id.index < s.supply.nextVar) {act : Compile Expr}
    (kept : ∀ t : CompileState, t.scope = inner → t.supply = s.supply →
      t.Formed w busy ⟨(Place.ofBody inner params captured s.supply).spared, outer⟩ →
      Forms w busy { Place.ofBody inner params captured s.supply with outer } o t act) :
    (formContract w busy reserve).Keeps o s (inScope inner act) fun x t =>
      t.scope = s.scope ∧ x.2.Serves t.supply params captured ∧
        (∀ y ∈ x.2.layout, y ∈ inner.layout ∨ s.supply.nextVar ≤ y.1.index) ∧
          (∀ e, x.1 = .ok e → e.Formed w { Place.ofBody x.2 params captured t.supply with outer }) ∧
            ∀ err, x.1 = .error err → w.error err := by
  let inside : Reserve := ⟨(Place.ofBody inner params captured s.supply).spared, outer⟩
  have entered : CompileState.Formed w busy inside { s with scope := inner } :=
    { hs with
      scope := serves.sound
      spared := fun slot ⟨x, mem, here⟩ => serves.taken x mem slot here
      outer := old }
  have made := kept { s with scope := inner } rfl rfl entered
  have left : ∀ {t : CompileState}, Grows { s with scope := inner } t →
      Grows s { t with scope := s.scope } := fun grows =>
    ⟨.refl _, grows.supply, grows.registry, fun _ => .inl⟩
  have restored : ∀ {t : CompileState}, t.Formed w busy inside →
      Grows { s with scope := inner } t →
      CompileState.Formed w busy reserve { t with scope := s.scope } := fun ht grows =>
    { ht with
      scope := hs.scope.mono grows.supply
      spared := hs.spared
      outer := fun id outer => Nat.lt_of_lt_of_le (hs.outer id outer) grows.supply }
  unfold Forms Keeps at made
  unfold Keeps
  have run : inScope inner act o s = ((act o { s with scope := inner }).1.map fun r =>
      .ok (r, (act o { s with scope := inner }).2.scope),
      { (act o { s with scope := inner }).2 with scope := s.scope }) := rfl
  rw [run]
  generalize act o { s with scope := inner } = outcome at made
  obtain ⟨f | err | e, t⟩ := outcome
  · exact ⟨left made.1, made.2⟩
  · obtain ⟨ht, grows, raised⟩ := made
    obtain ⟨served, -⟩ := serves.grown grows.scope ht.scope ht.spared
    exact ⟨restored ht grows, left grows, rfl, served, grows.fresh, by rintro _ ⟨⟩,
      by rintro _ ⟨⟩; exact raised⟩
  · obtain ⟨ht, grows, he⟩ := made
    obtain ⟨served, back⟩ := serves.grown grows.scope ht.scope ht.spared
    refine ⟨restored ht grows, left grows, rfl, served, grows.fresh, ?_, by rintro _ ⟨⟩⟩
    rintro _ ⟨⟩
    exact he.mono ⟨.refl _, Nat.le_refl _, id, id, back, .inl⟩

end Compile

end QueryFunctions
