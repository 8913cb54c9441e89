import TurkishMorphology.Proofs.Analysis.Position
import Mathlib.Data.List.Induction
/-!
# Segments of an analysis

Derivations cut the steps of an analysis into segments. A step that leaves a derivational state
opens a segment, and the steps before the first such step make a segment without an opener. An
analysis keeps four lists that are about its last segment and are begun anew with each derivation;
whatever steps were taken, they agree with the segment.

## Main definitions

- `Step.opens` — whether a step opens a segment
- `Step.segments` — the segments of steps
- `Analysis.KeepsSegment` — what an analysis keeps agrees with its last segment

## Main statements

- `Step.flatten_segments` — the segments are all the steps, in their order
- `Analysis.IsTrace.keepsSegment` — what is kept of the last segment is right
-/

namespace TurkishMorphology

namespace Step

/-- Whether a step leaves a derivational state, and so opens a segment. -/
def opens (g : Grammar) (s : Step) : Bool := (g.state s.source).isDerivational

/-- Segments with one step more, which opens a segment of its own or goes into the last one. -/
def addToSegments (g : Grammar) (segments : List (List Step)) (s : Step) : List (List Step) :=
  if s.opens g then segments ++ [[s]] else segments.dropLast ++ [segments.getLastD [] ++ [s]]

/-- The segments of steps. The first has no opener and may be empty, and each of the others begins
    with its opener. -/
def segments (g : Grammar) (steps : List Step) : List (List Step) :=
  steps.foldl (addToSegments g) [[]]

variable {g : Grammar} {steps : List Step} {s : Step}

theorem segments_append_singleton :
    segments g (steps ++ [s]) = addToSegments g (segments g steps) s := by
  simp [segments]

theorem segments_append_of_opens (h : s.opens g = true) :
    segments g (steps ++ [s]) = segments g steps ++ [[s]] := by
  rw [segments_append_singleton, addToSegments, if_pos h]

theorem segments_append_of_not_opens {closed : List (List Step)} {last : List Step}
    (hs : s.opens g = false) (h : segments g steps = closed ++ [last]) :
    segments g (steps ++ [s]) = closed ++ [last ++ [s]] := by
  rw [segments_append_singleton, addToSegments, hs, if_neg (by decide), h, List.dropLast_concat,
    List.getLastD_concat]

theorem exists_segments_eq (g : Grammar) (steps : List Step) :
    ∃ closed last, segments g steps = closed ++ [last] := by
  induction steps using List.reverseRecOn with
  | nil => exact ⟨[], [], rfl⟩
  | append_singleton steps s ih =>
    obtain ⟨closed, last, h⟩ := ih
    cases hs : s.opens g with
    | true => exact ⟨segments g steps, [s], segments_append_of_opens hs⟩
    | false => exact ⟨closed, last ++ [s], segments_append_of_not_opens hs h⟩

theorem flatten_segments (g : Grammar) (steps : List Step) :
    (segments g steps).flatten = steps := by
  induction steps using List.reverseRecOn with
  | nil => rfl
  | append_singleton steps s ih =>
    cases hs : s.opens g with
    | true => simp [segments_append_of_opens hs, ih]
    | false =>
      obtain ⟨closed, last, h⟩ := exists_segments_eq g steps
      rw [h] at ih
      rw [segments_append_of_not_opens hs h, ← ih]
      simp

end Step

namespace Analysis

variable {g : Grammar} {a : Analysis} {r : Realization} {target : StateId}

/-- What an analysis keeps for the gates agrees with its last segment. -/
structure KeepsSegment (g : Grammar) (a : Analysis) : Prop where
  positions : a.KeepsPositions
  last : ∃ closed, Step.segments g a.steps = closed ++ [a.fromDerivation]
  parts : a.fromDerivation = a.lastDerivation.toList ++ a.sinceDerivation
  opener : ∀ s, a.lastDerivation = some s → s.opens g = true
  inner : ∀ s ∈ a.sinceDerivation, s.opens g = false
  groups : a.groups = a.sinceDerivation.flatMap fun s =>
    (g.suffix s.realization.suffix).group.toList

theorem keepsSegment_begin (root : Root) (state : StateId) (rest : Word) :
    (begin root state rest).KeepsSegment g where
  positions := keepsPositions_begin root state rest
  last := ⟨[], rfl⟩
  parts := rfl
  opener s hs := by cases hs
  inner s hs := by cases hs
  groups := rfl

theorem KeepsSegment.extend (h : a.KeepsSegment g) : (a.extend g r target).KeepsSegment g := by
  obtain ⟨closed, hlast⟩ := h.last
  have hsince : (a.extend g r target).sinceDerivation = _ := h.positions.sinceDerivation_extend
  have hfrom : (a.extend g r target).fromDerivation = _ := h.positions.fromDerivation_extend
  have hopener : (a.extend g r target).lastDerivation = _ := h.positions.lastDerivation_extend
  cases hopens : (g.state a.state).isDerivational with
  | true =>
    have hstep : (a.nextStep g r target).opens g = true := hopens
    rw [hopens, if_pos rfl] at hsince hfrom hopener
    constructor
    · exact h.positions.extend
    · rw [steps_extend, Step.segments_append_of_opens hstep, hfrom]
      exact ⟨_, rfl⟩
    · rw [hfrom, hopener, hsince]
      rfl
    · rw [hopener]
      rintro s hs
      cases hs
      exact hstep
    · simp [hsince]
    · exact h.positions.groups_extend h.groups
  | false =>
    have hstep : (a.nextStep g r target).opens g = false := hopens
    rw [hopens, if_neg (by decide)] at hsince hfrom hopener
    constructor
    · exact h.positions.extend
    · rw [steps_extend, Step.segments_append_of_not_opens hstep hlast, hfrom]
      exact ⟨_, rfl⟩
    · rw [hfrom, hopener, hsince, h.parts, List.append_assoc]
    · rw [hopener]
      exact h.opener
    · rw [hsince]
      intro s hs
      rcases List.mem_append.mp hs with hs | hs
      · exact h.inner s hs
      · rw [List.mem_singleton.mp hs]
        exact hstep
    · exact h.positions.groups_extend h.groups

theorem KeepsSegment.withRemaining (h : a.KeepsSegment g) (rest : Word) :
    (a.withRemaining rest).KeepsSegment g :=
  ⟨⟨h.positions.since, h.positions.whole, h.positions.opener⟩, h.last, h.parts, h.opener, h.inner,
    h.groups⟩

theorem keepsSegment_replay (root : Root) (state : StateId) (rest : Word) (steps : List Step) :
    (replay g root state rest steps).KeepsSegment g := by
  induction steps using List.reverseRecOn with
  | nil => exact keepsSegment_begin root state rest
  | append_singleton steps s ih =>
    rw [replay_append_singleton]
    exact ih.extend

/-- What is kept of the last segment is right in every trace, whatever gates its steps passed. -/
theorem IsTrace.keepsSegment (h : a.IsTrace g) : a.KeepsSegment g := by
  have hreplay := keepsSegment_replay (g := g) a.root a.rootState [] a.steps
  rw [h.replayed] at hreplay
  exact hreplay.withRemaining a.remaining

end Analysis

end TurkishMorphology
