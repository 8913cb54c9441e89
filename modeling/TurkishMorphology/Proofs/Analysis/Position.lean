import TurkishMorphology.Proofs.Analysis.Trace
import Mathlib.Data.List.Basic
/-!
# Positions of steps

An analysis keeps the steps of its last derivation by their positions. Each position it keeps is
that of a step it has, whatever steps it took and whatever gates let them pass, so a further step
leaves the steps at those positions as they are. Later modules use the steps alone.

## Main definitions

- `Analysis.KeepsPositions` — every position that is kept is that of a step

## Main statements

- `Analysis.KeepsPositions.extend` — positions stay those of steps
- `Analysis.KeepsPositions.sinceDerivation_extend`, `fromDerivation_extend`,
  `lastDerivation_extend` — what a step makes of the steps of the last derivation
- `Analysis.KeepsPositions.groups_extend` — the groups that are kept
-/

namespace TurkishMorphology

namespace Analysis

variable {g : Grammar} {a : Analysis} {r : Realization} {target : StateId}

theorem lastStep?_extend : (a.extend g r target).lastStep? = some (a.nextStep g r target) :=
  List.getLast?_concat ..

@[simp]
theorem recentSuffixes_begin (root : Root) (state : StateId) (rest : Word) :
    (begin root state rest).recentSuffixes = [] := rfl

@[simp]
theorem lastDerivation_begin (root : Root) (state : StateId) (rest : Word) :
    (begin root state rest).lastDerivation = none := rfl

/-- Every position that the analysis keeps is that of one of its steps. -/
structure KeepsPositions (a : Analysis) : Prop where
  since : ∀ i ∈ a.sincePositions, i < a.steps.length
  whole : ∀ i ∈ a.fromPositions, i < a.steps.length
  opener : ∀ i, a.lastPosition = some i → i < a.steps.length

theorem keepsPositions_begin (root : Root) (state : StateId) (rest : Word) :
    (begin root state rest).KeepsPositions where
  since i hi := by cases hi
  whole i hi := by cases hi
  opener i hi := by cases hi

theorem lt_succ_of_mem_concat {positions : List Nat} {n : Nat} (h : ∀ i ∈ positions, i < n) :
    ∀ i ∈ positions ++ [n], i < n + 1 := by
  intro i hi
  rcases List.mem_append.mp hi with hi | hi
  · exact Nat.lt_succ_of_lt (h i hi)
  · rw [List.mem_singleton.mp hi]
    exact Nat.lt_succ_self n

theorem KeepsPositions.extend (h : a.KeepsPositions) : (a.extend g r target).KeepsPositions := by
  have hlength : (a.extend g r target).steps.length = a.steps.length + 1 := by simp
  have hnone : ∀ i ∈ ([] : List Nat), i < a.steps.length := fun i hi => by cases hi
  cases hopens : (g.state a.state).isDerivational with
  | true =>
    constructor <;> rw [hlength] <;> simp only [Analysis.extend, hopens, if_true]
    · intro i hi
      cases hi
    · exact lt_succ_of_mem_concat hnone
    · intro i hi
      cases hi
      exact Nat.lt_succ_self _
  | false =>
    constructor <;> rw [hlength] <;>
      simp only [Analysis.extend, hopens, Bool.false_eq_true, if_false]
    · exact lt_succ_of_mem_concat h.since
    · exact lt_succ_of_mem_concat h.whole
    · intro i hi
      exact Nat.lt_succ_of_lt (h.opener i hi)

theorem getElem?_steps_extend {i : Nat} (hi : i < a.steps.length) :
    (a.extend g r target).steps[i]? = a.steps[i]? :=
  List.getElem?_append_left hi

theorem getElem?_length_steps_extend :
    (a.extend g r target).steps[a.steps.length]? = some (a.nextStep g r target) :=
  List.getElem?_concat_length

/-- With the position of a new step, the steps at the positions are those before and the new
    one. -/
theorem stepsAt_extend {positions : List Nat} (h : ∀ i ∈ positions, i < a.steps.length) :
    (a.extend g r target).stepsAt (positions ++ [a.steps.length]) =
      a.stepsAt positions ++ [a.nextStep g r target] := by
  have hsame : (a.extend g r target).stepsAt positions = a.stepsAt positions :=
    List.filterMap_congr fun i hi => getElem?_steps_extend (h i hi)
  rw [← hsame, stepsAt, List.filterMap_append,
    List.filterMap_cons_some getElem?_length_steps_extend, List.filterMap_nil]
  rfl

namespace KeepsPositions

theorem sinceDerivation_extend (h : a.KeepsPositions) :
    (a.extend g r target).sinceDerivation =
      if (g.state a.state).isDerivational then []
      else a.sinceDerivation ++ [a.nextStep g r target] := by
  have hpositions : (a.extend g r target).sincePositions =
      if (g.state a.state).isDerivational then [] else a.sincePositions ++ [a.steps.length] := rfl
  rw [sinceDerivation, hpositions]
  split
  · rfl
  · exact stepsAt_extend h.since

theorem recentSuffixes_extend (h : a.KeepsPositions) :
    (a.extend g r target).recentSuffixes =
      if (g.state a.state).isDerivational then [] else a.recentSuffixes ++ [r.suffix] := by
  rw [recentSuffixes, h.sinceDerivation_extend]
  split
  · rfl
  · rw [List.map_append]
    rfl

/-- Groups that were those of the steps since the last derivation still are. -/
theorem groups_extend (h : a.KeepsPositions)
    (hgroups : a.groups = a.sinceDerivation.flatMap fun s =>
      (g.suffix s.realization.suffix).group.toList) :
    (a.extend g r target).groups = (a.extend g r target).sinceDerivation.flatMap fun s =>
      (g.suffix s.realization.suffix).group.toList := by
  have hnext : (a.extend g r target).groups = if (g.state a.state).isDerivational then []
      else a.groups ++ (g.suffix r.suffix).group.toList := rfl
  rw [h.sinceDerivation_extend, hnext]
  split
  · rfl
  · rw [hgroups, List.flatMap_append, List.flatMap_singleton]
    rfl

theorem fromDerivation_extend (h : a.KeepsPositions) :
    (a.extend g r target).fromDerivation =
      if (g.state a.state).isDerivational then [a.nextStep g r target]
      else a.fromDerivation ++ [a.nextStep g r target] := by
  have hpositions : (a.extend g r target).fromPositions =
      if (g.state a.state).isDerivational then [a.steps.length]
      else a.fromPositions ++ [a.steps.length] := rfl
  have hnone : ∀ i ∈ ([] : List Nat), i < a.steps.length := fun i hi => by cases hi
  rw [fromDerivation, hpositions]
  split
  · exact stepsAt_extend hnone
  · exact stepsAt_extend h.whole

theorem lastDerivation_extend (h : a.KeepsPositions) :
    (a.extend g r target).lastDerivation =
      if (g.state a.state).isDerivational then some (a.nextStep g r target)
      else a.lastDerivation := by
  have hposition : (a.extend g r target).lastPosition =
      if (g.state a.state).isDerivational then some a.steps.length else a.lastPosition := rfl
  rw [lastDerivation, hposition]
  split
  · exact getElem?_length_steps_extend
  · rw [lastDerivation]
    cases hlast : a.lastPosition with
    | none => rfl
    | some i => exact getElem?_steps_extend (h.opener i hlast)

end KeepsPositions

end Analysis

end TurkishMorphology
