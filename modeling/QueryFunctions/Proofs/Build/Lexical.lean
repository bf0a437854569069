import QueryFunctions.Proofs.Build.Frames

/-! Lexical scoping, told apart from how the builder keeps its frames. The binders around a place are
those of the function body at hand, innermost first, and then of the functions around it. A name stands
for the first of them; where that belongs to a function further out, each function in between captures
it once. -/
namespace QueryFunctions

/-- The lets and parameters of one function body that are visible at a place, innermost first. -/
abbrev Binders := List (String × VarId)

/-- The binders around a place, by function body, innermost first. -/
abbrev Surroundings := List Binders

/-- The innermost binder of a name, and how many function bodies further out it is. -/
def Surroundings.lookup (name : String) : Surroundings → Option (Nat × VarId)
  | [] => none
  | own :: around =>
    match own.find? (·.1 == name) with
    | some binder => some (0, binder.2)
    | none => (lookup name around).map fun p => (p.1 + 1, p.2)

namespace Frame

def binders (f : Frame) : Binders := f.names.filter fun p => decide (p.2 ∉ f.captures.map Prod.fst)

/-- The binders that are visible in the innermost frame. Those around a declared function are not. -/
def surroundings : List Frame → Surroundings
  | [] => []
  | f :: around => f.binders :: if f.capturing then surroundings around else []

/-- A variable of the innermost frame stands for a binder so many frames further out: it is that binder,
or it captures, as the only variable of its frame, one that stands for it in the frame around. -/
inductive Stands : List Frame → VarId → Nat → VarId → Prop
  | own {f around name id} : (name, id) ∈ f.binders → Stands (f :: around) id 0 id
  | captured {f around id outer n binder} :
    f.captures.filter (fun q => q.1 == id || q.2 == outer) = [(id, outer)] →
    Stands around outer n binder → Stands (f :: around) id (n + 1) binder

/-- Lets and parameters are what they were, and all that was captured still is. -/
structure Retains (f g : Frame) : Prop where
  binders : g.binders = f.binders
  captures : f.captures <+: g.captures
  capturing : g.capturing = f.capturing

/-- What a frame captures: each name with its variable and that of the frame around. -/
abbrev Links := List (String × VarId × VarId)

/-- The names of a frame are binders and, behind them, captured ones; the frame around finds each of
these under the same name. -/
structure Linked (f : Frame) (around : List Frame) (own : Binders) (links : Links) : Prop where
  names : f.names = own ++ links.map fun l => (l.1, l.2.1)
  captures : f.captures = links.map Prod.snd
  distinct : f.visible.Nodup
  once : (links.map Prod.fst).Nodup
  found : ∀ l ∈ links, f.capturing = true ∧ ∃ g rest, around = g :: rest ∧ g.find? l.1 = some l.2.2

inductive Tidy : List Frame → Prop
  | nil : Tidy []
  | cons {f around own links} : f.Linked around own links → Tidy around → Tidy (f :: around)

variable {f g next : Frame} {around outer rest : List Frame} {own : Binders} {links : Links}
  {name : String} {id : VarId} {supply t : Supply}

namespace Retains

theorem refl (f : Frame) : f.Retains f := ⟨rfl, List.prefix_refl _, rfl⟩

theorem trans {h : Frame} (first : f.Retains g) (second : g.Retains h) : f.Retains h :=
  ⟨second.binders.trans first.binders, first.captures.trans second.captures,
    second.capturing.trans first.capturing⟩

theorem all_refl (fs : List Frame) : List.Forall₂ Retains fs fs := List.forall₂_same.2 fun f _ => refl f

theorem all_trans {fs gs hs : List Frame} (first : List.Forall₂ Retains fs gs)
    (second : List.Forall₂ Retains gs hs) : List.Forall₂ Retains fs hs := by
  induction first generalizing hs with
  | nil => exact second
  | cons head _ ih =>
    cases second with
    | cons head' rest => exact .cons (head.trans head') (ih rest)

theorem surroundings_eq {fs gs : List Frame} (h : List.Forall₂ Retains fs gs) :
    surroundings gs = surroundings fs := by
  induction h with
  | nil => rfl
  | cons head _ ih => simp only [surroundings, head.binders, head.capturing, ih]

end Retains

namespace Linked

theorem binders_eq (h : f.Linked around own links) : f.binders = own := by
  have distinct := h.distinct
  unfold visible at distinct
  unfold binders
  rw [h.names, List.map_append, List.nodup_append] at distinct
  rw [h.names, h.captures, List.filter_append, List.filter_eq_self.2, List.filter_eq_nil_iff.2,
    List.append_nil]
  · intro p mem
    obtain ⟨l, among, rfl⟩ := List.mem_map.1 mem
    simpa using ⟨l.1, l.2.2, among⟩
  · intro p mem
    have apart := distinct.2.2 p.2 (List.mem_map_of_mem mem)
    simp only [decide_eq_true_eq, List.map_map]
    intro captured
    obtain ⟨l, among, same⟩ := List.mem_map.1 captured
    exact apart l.2.1 (List.mem_map_of_mem (f := Prod.snd)
      (List.mem_map_of_mem (f := fun l => (l.1, l.2.1)) among)) same.symm

theorem find?_eq (h : f.Linked around own links) (name : String) :
    f.find? name = ((own.find? (·.1 == name)).map Prod.snd).or
      ((links.find? (·.1 == name)).map (·.2.1)) := by
  unfold find?
  rw [h.names, List.find?_append, List.find?_map, Option.map_or, Option.map_map]
  rfl

theorem outer_injective (h : f.Linked (g :: around) own links) (visible : g.visible.Nodup)
    {l l' : String × VarId × VarId} (mem : l ∈ links) (mem' : l' ∈ links) (same : l.2.2 = l'.2.2) :
    l = l' := by
  have named : ∀ l ∈ links, (l.1, l.2.2) ∈ g.names := by
    intro l mem
    obtain ⟨-, _, _, eq, found⟩ := h.found l mem
    cases eq
    obtain ⟨p, here, eq⟩ := Option.map_eq_some_iff.1 found
    have name := List.find?_some here
    simp only [beq_iff_eq] at name
    rw [← name, ← eq]
    exact List.mem_of_find?_eq_some here
  have pair : (l.1, l.2.2) = (l'.1, l'.2.2) :=
    List.inj_on_of_nodup_map visible (named l mem) (named l' mem') same
  exact List.inj_on_of_nodup_map h.once mem mem' (Prod.mk.inj pair).1

theorem captured_nodup (h : f.Linked around own links) : (f.captures.map Prod.fst).Nodup := by
  have distinct := h.distinct
  unfold Frame.visible at distinct
  rw [h.names, List.map_append, List.map_map] at distinct
  rw [h.captures, List.map_map]
  exact (List.nodup_append.1 distinct).2.1

theorem captures_nodup (h : f.Linked around own links) (tidy : Tidy around) :
    (f.captures.map Prod.snd).Nodup := by
  rw [h.captures, List.map_map]
  refine (List.nodup_map_iff_inj_on (List.Nodup.of_map _ h.once)).2 fun l mem l' mem' same => ?_
  obtain ⟨-, g, rest, eq, -⟩ := h.found l mem
  cases eq
  cases tidy with
  | cons linked _ => exact h.outer_injective linked.distinct mem mem' same

theorem filter_captures (h : f.Linked (g :: around) own links) (visible : g.visible.Nodup)
    {l : String × VarId × VarId} (mem : l ∈ links) :
    f.captures.filter (fun q => q.1 == l.2.1 || q.2 == l.2.2) = [l.2] := by
  have only : ∀ x ∈ links, (x.2.1 == l.2.1 || x.2.2 == l.2.2) = (x == l) := by
    intro x among
    rw [Bool.eq_iff_iff]
    simp only [Bool.or_eq_true, beq_iff_eq]
    refine ⟨fun either => ?_, fun same => .inl (by rw [same])⟩
    rcases either with inner | outer
    · have distinct := h.distinct
      unfold Frame.visible at distinct
      rw [h.names, List.map_append, List.nodup_append, List.map_map] at distinct
      exact List.inj_on_of_nodup_map distinct.2.1 among mem inner
    · exact h.outer_injective visible among mem outer
  rw [h.captures, List.filter_map]
  have filtered : links.filter ((fun q => q.1 == l.2.1 || q.2 == l.2.2) ∘ Prod.snd) = [l] := by
    refine (List.filter_congr only).trans ?_
    rw [List.filter_beq, List.count_eq_one_of_mem (List.Nodup.of_map _ h.once) mem]
    rfl
  rw [filtered]
  rfl

end Linked

theorem Tidy.visible_nodup (tidy : Tidy (f :: around)) : f.visible.Nodup := by
  cases tidy with
  | cons linked _ => exact linked.distinct

/-- The variable stands for the binder that lexical scoping tells. -/
def Denotes (fs : List Frame) (name : String) (id : VarId) : Prop :=
  ∃ n binder, (surroundings fs).lookup name = some (n, binder) ∧ Stands fs id n binder

theorem Linked.denotes (linked : f.Linked around own links) (inner : Tidy around)
    (outward : ∀ g rest, around = g :: rest → ∀ id, g.find? name = some id → Denotes around name id)
    (found : f.find? name = some id) : Denotes (f :: around) name id := by
  rw [linked.find?_eq] at found
  cases here : own.find? (·.1 == name) with
  | some p =>
    obtain rfl : p.2 = id := by simpa [here] using found
    have mem : (p.1, p.2) ∈ f.binders := by
      rw [linked.binders_eq]
      exact List.mem_of_find?_eq_some here
    refine ⟨0, p.2, ?_, .own mem⟩
    simp only [surroundings, Surroundings.lookup, linked.binders_eq, here]
  | none =>
    obtain ⟨l, link, rfl⟩ : ∃ l, links.find? (·.1 == name) = some l ∧ l.2.1 = id := by
      simpa [here, Option.map_eq_some_iff] using found
    have mem := List.mem_of_find?_eq_some link
    obtain rfl : l.1 = name := by simpa using List.find?_some link
    obtain ⟨capturing, g, rest, eq, outer⟩ := linked.found l mem
    obtain ⟨n, binder, looked, stands⟩ := outward g rest eq l.2.2 outer
    subst eq
    refine ⟨n + 1, binder, ?_, .captured (linked.filter_captures inner.visible_nodup mem) stands⟩
    simp only [surroundings, capturing, if_true, Surroundings.lookup, linked.binders_eq, here]
    simp only [surroundings, Surroundings.lookup] at looked
    rw [looked]
    rfl

theorem Stands.retained {fs gs : List Frame} {n : Nat} {binder : VarId} (stands : Stands fs id n binder)
    (retains : List.Forall₂ Retains fs gs) (tidy : Tidy gs) : Stands gs id n binder := by
  induction stands generalizing gs with
  | own mem =>
    cases retains with
    | cons head _ => exact .own (head.binders ▸ mem)
  | @captured f around id outer n binder only stands ih =>
    cases retains with
    | @cons _ g _ rest head others =>
      cases tidy with
      | @cons _ _ own links linked inner =>
        have mem : (id, outer) ∈ g.captures := head.captures.subset
          (List.mem_of_mem_filter (only ▸ List.mem_singleton_self (id, outer)))
        rw [linked.captures] at mem
        obtain ⟨l, among, same⟩ := List.mem_map.1 mem
        obtain ⟨-, next, around, eq, -⟩ := linked.found l among
        subst eq
        have unique := linked.filter_captures inner.visible_nodup among
        rw [same] at unique
        exact .captured unique (ih others inner)

theorem Tidy.denotes (tidy : Tidy (f :: around)) (found : f.find? name = some id) :
    Denotes (f :: around) name id := by
  induction around generalizing f id with
  | nil =>
    cases tidy with
    | cons linked inner => exact linked.denotes inner (by rintro _ _ ⟨⟩) found
  | cons g rest ih =>
    cases tidy with
    | cons linked inner =>
      refine linked.denotes inner ?_ found
      rintro _ _ ⟨⟩ id found
      exact ih inner found

theorem lookup_surroundings (f : Frame) (around : List Frame) (name : String) :
    (surroundings (f :: around)).lookup name =
      ((f.binders.find? (·.1 == name)).map fun binder => (0, binder.2)).or
        (if f.capturing then ((surroundings around).lookup name).map fun p => (p.1 + 1, p.2)
        else none) := by
  simp only [surroundings, Surroundings.lookup]
  cases f.binders.find? (·.1 == name) with
  | some binder => rfl
  | none => cases f.capturing <;> rfl

theorem Grows.find?_eq (grows : f.Grows g) (found : f.find? name = some id) : g.find? name = some id := by
  obtain ⟨more, names, -⟩ := grows.names
  unfold find? at found ⊢
  rw [names, List.find?_append, Option.map_or, found]
  rfl

theorem Linked.find?_eq_none (linked : f.Linked around own links) (absent : f.find? name = none) :
    own.find? (·.1 == name) = none ∧ ∀ l ∈ links, l.1 ≠ name := by
  rw [linked.find?_eq] at absent
  obtain ⟨mine, captured⟩ : own.find? (·.1 == name) = none ∧ links.find? (·.1 == name) = none := by
    simpa [Option.or_eq_none_iff] using absent
  exact ⟨mine, fun l mem same => by simpa [same] using List.find?_eq_none.1 captured l mem⟩

theorem find?_capture (absent : f.find? name = none) (outer : VarId) (t : Supply) :
    ((f.capture name outer).run t).1.2.find? name = some ((f.capture name outer).run t).1.1 := by
  have behind : f.names.find? (·.1 == name) = none := Option.map_eq_none_iff.1 absent
  let id : VarId := ⟨t.nextVar⟩
  change ((f.names ++ [(name, id)]).find? fun p => p.1 == name).map Prod.snd = some id
  rw [List.find?_append, behind]
  simp

theorem Formed.next_not_visible (formed : f.Formed t) : (⟨t.nextVar⟩ : VarId) ∉ f.visible := by
  intro seen
  obtain ⟨p, mem, same⟩ := List.mem_map.1 (formed.known _ seen)
  have lt := formed.sound.fresh p mem
  rw [same] at lt
  exact Nat.lt_irrefl _ lt

theorem Linked.bind (linked : f.Linked around own links) (formed : f.Formed t)
    (names : g.names = (name, ⟨t.nextVar⟩) :: f.names) (captures : g.captures = f.captures)
    (capturing : g.capturing = f.capturing) :
    g.Linked around ((name, ⟨t.nextVar⟩) :: own) links := by
  refine ⟨?_, captures.trans linked.captures, ?_, linked.once, fun l mem => ?_⟩
  · rw [names, linked.names]
    rfl
  · unfold visible
    rw [names]
    exact List.nodup_cons.2 ⟨formed.next_not_visible, linked.distinct⟩
  · rw [capturing]
    exact linked.found l mem

theorem Linked.closeLet {binder : String × VarId} (linked : f.Linked around (binder :: own) links)
    (mark : Nat) : (f.closeLet mark).Linked around own links := by
  have distinct := linked.distinct
  unfold visible at distinct
  rw [linked.names] at distinct
  have names : (f.closeLet mark).names = own ++ links.map fun l => (l.1, l.2.1) :=
    congrArg List.tail linked.names
  refine ⟨names, linked.captures, ?_, linked.once, linked.found⟩
  unfold visible
  rw [names]
  exact (List.nodup_cons.1 distinct).2

theorem Linked.capture (linked : f.Linked (next :: outer) own links) (formed : f.Formed t)
    (capturing : f.capturing = true) (absent : f.find? name = none) (grows : next.Grows g)
    (found : g.find? name = some id) :
    ((f.capture name id).run t).1.2.Linked (g :: rest) own (links ++ [(name, ⟨t.nextVar⟩, id)]) ∧
      f.Retains ((f.capture name id).run t).1.2 := by
  let h : Frame := { f with
    scope := f.scope.add ⟨t.nextVar⟩ name none true
    names := f.names ++ [(name, ⟨t.nextVar⟩)]
    captures := f.captures ++ [(⟨t.nextVar⟩, id)] }
  change h.Linked (g :: rest) own _ ∧ f.Retains h
  have linked' : h.Linked (g :: rest) own (links ++ [(name, ⟨t.nextVar⟩, id)]) := by
    refine ⟨?_, ?_, ?_, ?_, fun l mem => ⟨capturing, ?_⟩⟩
    · simp [h, linked.names]
    · simp [h, linked.captures]
    · change ((f.names ++ [_]).map Prod.snd).Nodup
      rw [List.map_append]
      refine List.nodup_append.2 ⟨linked.distinct, List.nodup_singleton _, fun x seen y last same => ?_⟩
      rw [same, List.mem_singleton.1 last] at seen
      exact formed.next_not_visible seen
    · rw [List.map_append]
      refine List.nodup_append.2 ⟨linked.once, List.nodup_singleton _, fun x mem y last same => ?_⟩
      obtain ⟨l, among, rfl⟩ := List.mem_map.1 mem
      exact (linked.find?_eq_none absent).2 l among (same.trans (List.mem_singleton.1 last))
    · rcases List.mem_append.1 mem with old | last
      · obtain ⟨-, _, _, eq, outward⟩ := linked.found l old
        cases eq
        exact ⟨g, rest, rfl, grows.find?_eq outward⟩
      · rw [List.mem_singleton.1 last]
        exact ⟨g, rest, rfl, found⟩
  exact ⟨linked', linked'.binders_eq.trans linked.binders_eq.symm, List.prefix_append _ _, rfl⟩

/-- A name with a binder is found, and captured on the way; one without leaves no trace. -/
def Resolves (name : String) (f : Frame) (outer : List Frame) (supply : Supply) : Prop :=
  match (surroundings (f :: outer)).lookup name with
  | none => (resolve name f outer).run supply = (none, supply)
  | some _ => ∃ id g rest t, (resolve name f outer).run supply = (some (id, g, rest), t) ∧
      g.find? name = some id ∧ Tidy (g :: rest) ∧ List.Forall₂ Retains (f :: outer) (g :: rest)

theorem Tidy.resolves_of_found (tidy : Tidy (f :: outer)) (found : f.find? name = some id)
    (run : (resolve name f outer).run supply = (some (id, f, outer), supply)) :
    Resolves name f outer supply := by
  obtain ⟨n, binder, looked, -⟩ := tidy.denotes found
  unfold Resolves
  rw [looked]
  exact ⟨id, f, outer, supply, run, found, tidy, Retains.all_refl _⟩

theorem Tidy.resolves (tidy : Tidy (f :: outer)) (formed : FramesFormed supply (f :: outer))
    (name : String) : Resolves name f outer supply := by
  induction outer generalizing f with
  | nil =>
    have run : (resolve name f []).run supply = ((f.find? name).map fun id => (id, f, []), supply) := rfl
    cases found : f.find? name with
    | some id =>
      rw [found] at run
      exact tidy.resolves_of_found found run
    | none =>
      cases tidy with
      | cons linked inner =>
        rw [found] at run
        unfold Resolves
        rw [lookup_surroundings, linked.binders_eq, (linked.find?_eq_none found).1]
        simpa [surroundings, Surroundings.lookup] using run
  | cons next outer ih =>
    cases found : f.find? name with
    | some id =>
      refine tidy.resolves_of_found found ?_
      unfold resolve
      rw [found]
      rfl
    | none =>
      cases tidy with
      | @cons _ _ own links linked inner =>
        unfold Resolves
        rw [lookup_surroundings, linked.binders_eq, (linked.find?_eq_none found).1]
        cases capturing : f.capturing with
        | false => exact resolve_run_of_closed found capturing
        | true =>
          have around := ih inner formed.tail
          unfold Resolves at around
          rw [Option.map_none, Option.none_or, if_pos rfl]
          cases looked : (surroundings (next :: outer)).lookup name with
          | none =>
            rw [looked] at around
            exact resolve_run_of_none found capturing around
          | some p =>
            rw [looked] at around
            obtain ⟨id, g, rest, t, run, outward, tidy, retains⟩ := around
            obtain ⟨le, resolved⟩ := resolve_formed name next outer supply formed.tail
            rw [run] at le resolved
            obtain ⟨-, grows, -⟩ := resolved id g rest rfl
            have head : f.Formed t := (formed.each f List.mem_cons_self).mono le
            obtain ⟨linked', kept⟩ : (Linked _ (g :: rest) _ _) ∧ _ :=
              linked.capture head capturing found (List.forall₂_cons.1 grows).1 outward
            exact ⟨_, _, _, _, resolve_run_of_some found capturing run, find?_capture found id t,
              .cons linked' tidy, .cons kept retains⟩

end Frame

end QueryFunctions
