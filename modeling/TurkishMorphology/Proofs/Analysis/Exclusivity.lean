import TurkishMorphology.Proofs.Analysis.Forcing
import TurkishMorphology.Proofs.Analysis.Irregular
import TurkishMorphology.Proofs.Analysis.Run
/-!
# Groups and repetition

Within a segment no two steps besides the opener have suffixes of one group, and no suffix that may
not be repeated occurs twice, the opener included. The gates see to it with the lists that an
analysis keeps of its last segment. Fixed paths pass no gates, so their drafts are checked instead.
The suffixes that derive in Turkish have no group; so there an opener shares no group either.

## Main definitions

- `Step.IsExclusive` — what is asked of one segment
- `Analysis.IsExclusive` — what is asked of all segments of an analysis
- `Analysis.KeepsGroupsApart` — the invariant for grammars whose deriving suffixes have no group

## Main statements

- `Analysis.IsExclusive.extend` — the gates keep the segments exclusive
- `Analysis.KeepsGroupsApart.pairwise` — no two steps of a segment share a group
- `FixedPaths.IsPathOf.keepsGroupsApart` — nor do the steps of fixed paths
-/

namespace TurkishMorphology

namespace Step

/-- Whether the suffixes of two steps are of one group. -/
def sharesGroup (g : Grammar) (s t : Step) : Bool :=
  (g.suffix s.realization.suffix).group.any fun group =>
    (g.suffix t.realization.suffix).group = some group

/-- Besides the opener no two steps of the segment share a group, and a suffix that occurs twice in
    it may be repeated. -/
structure IsExclusive (g : Grammar) (segment : List Step) : Prop where
  groups : (segment.filter fun s => !s.opens g).Pairwise fun s t => s.sharesGroup g t = false
  suffixes : segment.Pairwise fun s t => s.realization.suffix = t.realization.suffix →
    (g.suffix s.realization.suffix).repeats = true

instance (g : Grammar) (segment : List Step) : Decidable (IsExclusive g segment) :=
  decidable_of_iff
    (((segment.filter fun s => !s.opens g).Pairwise fun s t => s.sharesGroup g t = false) ∧
      segment.Pairwise fun s t => s.realization.suffix = t.realization.suffix →
        (g.suffix s.realization.suffix).repeats = true)
    ⟨fun h => ⟨h.1, h.2⟩, fun h => ⟨h.groups, h.suffixes⟩⟩

variable {g : Grammar} {s : Step}

theorem isExclusive_nil : IsExclusive g [] := ⟨.nil, .nil⟩

theorem isExclusive_singleton : IsExclusive g [s] :=
  ⟨List.Pairwise.filter _ (List.pairwise_singleton ..), List.pairwise_singleton ..⟩

end Step

namespace Analysis

variable {g : Grammar} {a b : Analysis} {r : Realization} {target : StateId}
  {reading : Condition.Reading}

namespace KeepsSegment

/-- The steps since the last derivation are the last segment without its opener. -/
theorem filter_fromDerivation (h : a.KeepsSegment g) :
    (a.fromDerivation.filter fun s => !s.opens g) = a.sinceDerivation := by
  have hopener : (a.lastDerivation.toList.filter fun s => !s.opens g) = [] := by
    rw [List.filter_eq_nil_iff]
    intro s hs
    simp [h.opener s (Option.mem_toList.mp hs)]
  have hinner : (a.sinceDerivation.filter fun s => !s.opens g) = a.sinceDerivation := by
    rw [List.filter_eq_self]
    intro s hs
    simp [h.inner s hs]
  rw [h.parts, List.filter_append, hopener, hinner, List.nil_append]

/-- A step whose group is free shares it with no step since the last derivation. -/
theorem sharesGroup_eq_false (h : a.KeepsSegment g)
    (hfree : a.hasTakenGroup (g.suffix r.suffix) = false) {s : Step} (hs : s ∈ a.sinceDerivation) :
    s.sharesGroup g (a.nextStep g r target) = false := by
  rw [← Bool.not_eq_true]
  intro hshares
  obtain ⟨group, hgroup, hsame⟩ := (Option.any_eq_true _ _).mp hshares
  have hsame : (g.suffix r.suffix).group = some group := of_decide_eq_true hsame
  have htaken : group ∈ a.groups := by
    rw [h.groups]
    exact List.mem_flatMap.mpr ⟨s, hs, Option.mem_toList.mpr hgroup⟩
  simp [hasTakenGroup, hsame, htaken] at hfree

/-- A suffix that was not taken is not that of a step from the last derivation on. -/
theorem suffix_ne (h : a.KeepsSegment g) {id : SuffixId} (hnew : a.hasTaken id = false) {s : Step}
    (hs : s ∈ a.fromDerivation) : s.realization.suffix ≠ id := by
  simp only [hasTaken, recentSuffixes, Bool.or_eq_false_iff, Option.any_eq_false] at hnew
  obtain ⟨hinner, hopener⟩ := hnew
  rw [h.parts] at hs
  rcases List.mem_append.mp hs with hs | hs
  · have hopener := hopener s (Option.mem_toList.mp hs)
    simpa using hopener
  · intro hid
    have hmem : id ∈ a.sinceDerivation.map fun s => s.realization.suffix :=
      List.mem_map.mpr ⟨s, hs, hid⟩
    simp [hmem] at hinner

/-- The gates let only such steps into the last segment as keep it exclusive. -/
theorem isExclusive_append (h : a.KeepsSegment g)
    (hlast : Step.IsExclusive g a.fromDerivation) (hallows : a.Allows g r target reading)
    (hopens : (a.nextStep g r target).opens g = false) :
    Step.IsExclusive g (a.fromDerivation ++ [a.nextStep g r target]) where
  groups := by
    rw [List.filter_append, h.filter_fromDerivation, List.filter_singleton, hopens,
      List.pairwise_append]
    refine ⟨h.filter_fromDerivation ▸ hlast.groups, List.pairwise_singleton .., ?_⟩
    intro s hs t ht
    obtain rfl := List.mem_singleton.mp ht
    exact h.sharesGroup_eq_false hallows.groupFree hs
  suffixes := by
    rw [List.pairwise_append]
    refine ⟨hlast.suffixes, List.pairwise_singleton .., ?_⟩
    intro s hs t ht hsame
    obtain rfl := List.mem_singleton.mp ht
    rcases hallows.notRepeated with hrepeats | hnew
    · exact hsame ▸ hrepeats
    · exact absurd hsame (h.suffix_ne hnew hs)

end KeepsSegment

/-- What is asked of all segments of an analysis. -/
def IsExclusive (g : Grammar) (a : Analysis) : Prop :=
  ∀ segment ∈ Step.segments g a.steps, Step.IsExclusive g segment

theorem isExclusive_begin (root : Root) (state : StateId) (rest : Word) :
    (begin root state rest).IsExclusive g := by
  intro segment hsegment
  obtain rfl := List.mem_singleton.mp hsegment
  exact Step.isExclusive_nil

/-- The gates keep the segments of an analysis exclusive. -/
theorem IsExclusive.extend (h : a.IsExclusive g) (hkeeps : a.KeepsSegment g)
    (hallows : a.Allows g r target reading) : (a.extend g r target).IsExclusive g := by
  obtain ⟨closed, hlast⟩ := hkeeps.last
  intro segment hsegment
  rw [steps_extend] at hsegment
  cases hopens : (a.nextStep g r target).opens g with
  | true =>
    rw [Step.segments_append_of_opens hopens] at hsegment
    rcases List.mem_append.mp hsegment with hsegment | hsegment
    · exact h segment hsegment
    · obtain rfl := List.mem_singleton.mp hsegment
      exact Step.isExclusive_singleton
  | false =>
    rw [Step.segments_append_of_not_opens hopens hlast] at hsegment
    rcases List.mem_append.mp hsegment with hsegment | hsegment
    · exact h segment (hlast ▸ List.mem_append_left _ hsegment)
    · obtain rfl := List.mem_singleton.mp hsegment
      exact hkeeps.isExclusive_append (h _ (by simp [hlast])) hallows hopens

/-- The segments of every analysis in a run are exclusive. -/
theorem IsRun.isExclusive {moves : List Move} {c : Nat → Analysis} (h : IsRun g reading moves c)
    {i : Nat} (hi : i ≤ moves.length) : (c i).IsExclusive g := by
  have hboth := h.invariant (P := fun a => a.KeepsSegment g ∧ a.IsExclusive g)
    (fun root state rest => ⟨keepsSegment_begin root state rest, isExclusive_begin root state rest⟩)
    (fun a r target ha hallows => ⟨ha.1.extend, ha.2.extend ha.1 hallows⟩)
  exact (hboth i hi).2

end Analysis

/-- The suffixes that leave derivational states have no group. -/
def Grammar.DerivesUngrouped (g : Grammar) : Prop :=
  ∀ e ∈ g.edges, (g.state e.source).isDerivational = true → (g.suffix e.suffix).group = none

theorem Turkish.derivesUngrouped : grammar.DerivesUngrouped := by
  unfold Grammar.DerivesUngrouped
  decide +kernel

namespace Analysis

variable {g : Grammar} {a b : Analysis}

/-- The segments are exclusive, and the openers have no group. -/
structure KeepsGroupsApart (g : Grammar) (a : Analysis) : Prop where
  segment : a.KeepsSegment g
  exclusive : a.IsExclusive g
  openers : ∀ s ∈ a.steps, s.opens g = true → (g.suffix s.realization.suffix).group = none

namespace KeepsGroupsApart

theorem extend {r : Realization} {target : StateId} (h : a.KeepsGroupsApart g)
    (hg : g.DerivesUngrouped) (hfollows : (a.nextStep g r target).Follows g a.attributes)
    (hallows : a.Allows g r target) : (a.extend g r target).KeepsGroupsApart g := by
  refine ⟨h.segment.extend, h.exclusive.extend h.segment hallows, fun s hs hopens => ?_⟩
  rcases List.mem_append.mp hs with hs | hs
  · exact h.openers s hs hopens
  · obtain rfl := List.mem_singleton.mp hs
    exact hg _ hfollows.edge hopens

theorem reflTransGen (h : a.KeepsGroupsApart g) (hg : g.DerivesUngrouped)
    (hab : Relation.ReflTransGen (Takes g) a b) : b.KeepsGroupsApart g :=
  invariant_of_takes hab h fun _ _ _ hc hfollows hallows => hc.extend hg hfollows hallows

theorem withRemaining (h : a.KeepsGroupsApart g) (rest : Word) :
    (a.withRemaining rest).KeepsGroupsApart g :=
  ⟨h.segment.withRemaining rest, h.exclusive, h.openers⟩

/-- No two steps of a segment share a group, the opener included. -/
theorem pairwise (h : a.KeepsGroupsApart g) {segment : List Step}
    (hsegment : segment ∈ Step.segments g a.steps) :
    segment.Pairwise fun s t => s.sharesGroup g t = false := by
  have hungrouped : ∀ s ∈ segment, s.opens g = true →
      (g.suffix s.realization.suffix).group = none := by
    intro s hs
    refine h.openers s ?_
    rw [← Step.flatten_segments g a.steps]
    exact List.mem_flatten.mpr ⟨segment, hsegment, hs⟩
  refine (List.pairwise_filter.mp (h.exclusive segment hsegment).groups).imp_of_mem ?_
  intro s t hs ht hothers
  cases hs' : s.opens g with
  | true => simp [Step.sharesGroup, hungrouped s hs hs']
  | false =>
    cases ht' : t.opens g with
    | true => simp [Step.sharesGroup, hungrouped t ht ht']
    | false => exact hothers (by simp [hs']) (by simp [ht'])

end KeepsGroupsApart

theorem keepsGroupsApart_begin (root : Root) (state : StateId) (rest : Word) :
    (begin root state rest).KeepsGroupsApart g :=
  ⟨keepsSegment_begin root state rest, isExclusive_begin root state rest, fun s hs => by cases hs⟩

end Analysis

/-- Whether all segments of steps are exclusive, and openers have no group. -/
def Step.areApart (g : Grammar) (steps : List Step) : Bool :=
  (segments g steps).all (fun segment => IsExclusive g segment)
    && steps.all fun s => !s.opens g || (g.suffix s.realization.suffix).group.isNone

theorem Step.areApart_iff {g : Grammar} {steps : List Step} :
    areApart g steps = true ↔ (∀ segment ∈ segments g steps, IsExclusive g segment) ∧
      ∀ s ∈ steps, s.opens g = true → (g.suffix s.realization.suffix).group = none := by
  simp [areApart, Decidable.imp_iff_not_or]

theorem Irregular.areApart : trailsPass (fun _ => Step.areApart Turkish.grammar) = true := by
  decide +kernel

/-- Fixed paths keep groups apart, although no gate judges their steps. -/
theorem FixedPaths.IsPathOf.keepsGroupsApart {index : RootIndex} {root : Root} {path : Analysis}
    (h : IsPathOf Turkish.grammar index Irregular.drafts root path) :
    path.KeepsGroupsApart Turkish.grammar := by
  obtain ⟨-, -, -, hapart⟩ := h.exists_draft_of_trailsPass Irregular.areApart
  obtain ⟨hexclusive, hopeners⟩ := Step.areApart_iff.mp hapart
  exact ⟨h.isTrace.keepsSegment, hexclusive, hopeners⟩

end TurkishMorphology
