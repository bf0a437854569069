import Mathlib.Data.Prod.Lex
import Mathlib.Data.String.Basic
import QueryFunctions.Name.Suggestion
import QueryFunctions.Proofs.Name.EditDistance

/-! Which name is suggested: of the candidates that are near enough, the one of the least rank. The
scan keeps the best of those that it has seen, and as ranks are ordered linearly and no two names share
one, it does not matter in which order or how often they come. -/
namespace QueryFunctions

namespace Name

/-- Another name, near enough to be suggested. -/
structure Eligible (target candidate : String) : Prop where
  other : candidate ≠ target
  near : levenshtein (key target) (key candidate) ≤ tolerance (key target).length

/-- The nearer a name the lower its rank; names as near as each other go by the alphabet. -/
def rank (target candidate : String) : ℕ ×ₗ String :=
  toLex (levenshtein (key target) (key candidate), candidate)

/-- Of the eligible candidates the one of the least rank. -/
structure Nearest (target : String) (candidates : List String) (name : String) : Prop where
  mem : name ∈ candidates
  eligible : Eligible target name
  least : ∀ c ∈ candidates, Eligible target c → rank target name ≤ rank target c

variable {target : String}

theorem rank_injective : Function.Injective (rank target) := fun _ _ same =>
  congrArg (fun r => (ofLex r).2) same

theorem Nearest.unique {candidates : List String} {a b : String} (ha : Nearest target candidates a)
    (hb : Nearest target candidates b) : a = b :=
  rank_injective (le_antisymm (ha.least b hb.mem hb.eligible) (hb.least a ha.mem ha.eligible))

theorem Nearest.of_mem_iff {candidates candidates' : List String} {name : String}
    (same : ∀ c, c ∈ candidates ↔ c ∈ candidates') (h : Nearest target candidates name) :
    Nearest target candidates' name where
  mem := (same name).1 h.mem
  eligible := h.eligible
  least c mem := h.least c ((same c).2 mem)

def offer (target candidate : String) : ℕ × String := (distance target candidate, candidate)

theorem toLex_offer (candidate : String) : toLex (offer target candidate) = rank target candidate := by
  rw [offer, distance, editDistance_eq_levenshtein, rank]

theorem better_iff {a b : ℕ × String} : better a b = true ↔ toLex a < toLex b := by
  simp [better, Prod.Lex.toLex_lt_toLex]

theorem passed_over_iff {candidate : String} :
    (candidate = target || tolerance (key target).length < distance target candidate) = true ↔
      ¬Eligible target candidate := by
  rw [distance, editDistance_eq_levenshtein]
  constructor
  · rintro passed ⟨other, near⟩
    simp [other, Nat.not_lt.2 near] at passed
  · intro refused
    by_contra free
    simp only [Bool.or_eq_true, decide_eq_true_eq, not_or, Nat.not_lt] at free
    exact refused ⟨free.1, free.2⟩

theorem consider_of_not_eligible {best : Option (ℕ × String)} {candidate : String}
    (refused : ¬Eligible target candidate) : consider target best candidate = best :=
  if_pos (passed_over_iff.2 refused)

theorem consider_of_eligible {best : Option (ℕ × String)} {candidate : String}
    (eligible : Eligible target candidate) :
    consider target best candidate =
      if best.all (better (offer target candidate)) then some (offer target candidate) else best :=
  if_neg fun passed => passed_over_iff.1 passed eligible

/-- What the scan holds after the names `seen`. -/
inductive Holds (target : String) (seen : List String) : Option (ℕ × String) → Prop
  | nothing : (∀ c ∈ seen, ¬Eligible target c) → Holds target seen none
  | best {name : String} : Nearest target seen name → Holds target seen (some (offer target name))

theorem least_concat {seen : List String} {candidate : String} {low : ℕ ×ₗ String}
    (old : ∀ c ∈ seen, Eligible target c → low ≤ rank target c)
    (new : Eligible target candidate → low ≤ rank target candidate) :
    ∀ c ∈ seen ++ [candidate], Eligible target c → low ≤ rank target c := by
  intro c mem hc
  rcases List.mem_append.1 mem with mem | mem
  · exact old c mem hc
  · obtain rfl := List.mem_singleton.1 mem
    exact new hc

theorem Holds.consider {seen : List String} {best : Option (ℕ × String)}
    (h : Holds target seen best) (candidate : String) :
    Holds target (seen ++ [candidate]) (consider target best candidate) := by
  by_cases eligible : Eligible target candidate
  · rw [consider_of_eligible eligible]
    cases h with
    | nothing none =>
      exact .best ⟨by simp, eligible,
        least_concat (fun c mem hc => absurd hc (none c mem)) fun _ => le_rfl⟩
    | best nearest =>
      simp only [Option.all_some, better_iff, toLex_offer]
      split
      · rename_i lower
        have least := fun c mem hc => lower.le.trans (nearest.least c mem hc)
        exact .best ⟨by simp, eligible, least_concat least fun _ => le_rfl⟩
      · rename_i notLower
        have least := least_concat nearest.least fun _ => not_lt.1 notLower
        exact .best ⟨List.mem_append_left _ nearest.mem, nearest.eligible, least⟩
  · rw [consider_of_not_eligible eligible]
    cases h with
    | nothing none => exact .nothing (List.forall_mem_append.2 ⟨none, by simpa using eligible⟩)
    | best nearest =>
      have least := least_concat nearest.least fun hc => absurd hc eligible
      exact .best ⟨List.mem_append_left _ nearest.mem, nearest.eligible, least⟩

theorem Holds.foldl {seen : List String} {best : Option (ℕ × String)} (h : Holds target seen best)
    (candidates : List String) :
    Holds target (seen ++ candidates) (candidates.foldl (Name.consider target) best) := by
  induction candidates generalizing seen best with
  | nil => simpa using h
  | cons c cs ih => simpa using ih (h.consider c)

theorem holds_foldl (target : String) (candidates : List String) :
    Holds target candidates (candidates.foldl (consider target) none) := by
  have start : Holds target [] none := .nothing (by simp)
  simpa using start.foldl candidates

theorem closest?_eq_some_iff {candidates : List String} {name : String} :
    closest? target candidates = some name ↔ Nearest target candidates name := by
  have held := holds_foldl target candidates
  rw [closest?]
  generalize candidates.foldl (consider target) none = best at held
  cases held with
  | nothing none => simpa using fun h : Nearest target candidates name => none name h.mem h.eligible
  | best nearest =>
    simp only [Option.map_some, offer, Option.some.injEq]
    exact ⟨fun same => same ▸ nearest, nearest.unique⟩

theorem closest?_eq_none_iff {candidates : List String} :
    closest? target candidates = none ↔ ∀ c ∈ candidates, ¬Eligible target c := by
  have held := holds_foldl target candidates
  rw [closest?]
  generalize candidates.foldl (consider target) none = best at held
  cases held with
  | nothing none => simpa using none
  | best nearest => simpa using ⟨_, nearest.mem, nearest.eligible⟩

/-- The distance that is computed row by row is that of the recursion. The suggestion is the nearest
of the eligible candidates, in the alphabet the first of those, and only where no candidate is eligible
is there none. Neither the order of the candidates nor their repetition matters. -/
theorem suggestion_nearest :
    (∀ (α : Type) [DecidableEq α] (as bs : List α), editDistance as bs = levenshtein as bs) ∧
      ∀ (target : String) (candidates : List String),
        (∀ name, closest? target candidates = some name ↔ Nearest target candidates name) ∧
        (closest? target candidates = none ↔ ∀ c ∈ candidates, ¬Eligible target c) ∧
        ∀ candidates', (∀ c, c ∈ candidates ↔ c ∈ candidates') →
          closest? target candidates = closest? target candidates' := by
  refine ⟨fun _ _ => editDistance_eq_levenshtein, fun target candidates =>
    ⟨fun _ => closest?_eq_some_iff, closest?_eq_none_iff, fun candidates' same => ?_⟩⟩
  refine Option.ext fun name => ?_
  rw [closest?_eq_some_iff, closest?_eq_some_iff]
  exact ⟨.of_mem_iff same, .of_mem_iff fun c => (same c).symm⟩

/-- Two names as near as each other, one of them given twice. -/
theorem suggestion_nearest_tie :
    (∀ c, c ∈ ["local:fob", "local:foa", "local:fob"] ↔ c ∈ ["local:foa", "local:fob"]) ∧
      closest? "my:Foo" ["local:fob", "local:foa", "local:fob"] =
        closest? "my:Foo" ["local:foa", "local:fob"] ∧
      closest? "my:Foo" ["local:foa", "local:fob"] = some "local:foa" := by
  have same : ∀ c, c ∈ ["local:fob", "local:foa", "local:fob"] ↔ c ∈ ["local:foa", "local:fob"] := by
    intro c
    simp only [List.mem_cons, List.not_mem_nil, or_false]
    tauto
  exact ⟨same, (suggestion_nearest.2 "my:Foo" _).2.2 _ same, by decide +kernel⟩

end Name

end QueryFunctions
