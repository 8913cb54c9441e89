import TurkishMorphology.Proofs.Analysis.FixedPath
import TurkishMorphology.Proofs.Analysis.Forcing
import Mathlib.Data.List.Induction
/-!
# Expecting a vowel

A root or a step may ask for a vowel. Until something is spoken the expectation is pending, and
the gates let nothing be spoken then that starts otherwise. Nothing makes an analysis speak at
all, though, so it may end with the expectation pending.

## Main definitions

- `Step.pending` — whether a vowel is expected after some steps
- `Analysis.MeetsVowels` — whatever was spoken when a vowel was expected starts with a vowel
- `Analysis.VoicedBeforeVowels` — a vowel follows wherever one is asked for

## Main statements

- `Analysis.IsTrace.contains_expectations` — the expectations of a trace
- `Analysis.MeetsVowels.takes` — steps along the grammar meet expectations
- `Analysis.MeetsVowels.voicedBeforeVowels_iff` — a vowel follows wherever one is asked for unless
  the expectation is pending in the end
-/

namespace TurkishMorphology

namespace Step

def awaitsVowel (s : Step) : Bool := s.realization.awaits = some .vowelStart

def startsWithVowel (s : Step) : Bool := s.realization.text.head?.any Alphabet.isVowel

/-- The first step that adds something visible. -/
def nextSpoken? (steps : List Step) : Option Step := steps.find? fun s => !s.isBlank

/-- Something visible is added, and it starts with a vowel. -/
def VowelNext (steps : List Step) : Prop :=
  ∃ s, nextSpoken? steps = some s ∧ s.startsWithVowel = true

/-- Whether a vowel is expected after steps, given whether one was expected before them. -/
def pending (expected : Bool) (steps : List Step) : Bool :=
  steps.foldl (fun e s => s.awaitsVowel || s.isBlank && e) expected

variable {expected : Bool} {steps before after : List Step} {s : Step}

theorem pending_append (expected : Bool) (xs ys : List Step) :
    pending expected (xs ++ ys) = pending (pending expected xs) ys := by
  simp [pending]

theorem pending_append_singleton (expected : Bool) (steps : List Step) (s : Step) :
    pending expected (steps ++ [s]) = (s.awaitsVowel || s.isBlank && pending expected steps) := by
  simp [pending]

/-- Steps that add nothing visible leave the expectation pending. -/
theorem pending_of_blank (h : ∀ s ∈ steps, s.isBlank = true) : pending true steps = true := by
  induction steps using List.reverseRecOn with
  | nil => rfl
  | append_singleton steps s ih =>
    have hsteps := ih fun t ht => h t (List.mem_append_left _ ht)
    have hs : s.isBlank = true := h s (List.mem_append_right _ (List.mem_singleton_self s))
    rw [pending_append_singleton, hsteps, hs, Bool.and_true, Bool.or_true]

/-- A vowel is expected after steps if it was expected before them or one of them asks for it, and
    nothing is spoken since. -/
theorem pending_eq_true_iff :
    pending expected steps = true ↔
      (expected = true ∧ ∀ s ∈ steps, s.isBlank = true) ∨
        ∃ before s after, steps = before ++ s :: after ∧ s.awaitsVowel = true ∧
          ∀ t ∈ after, t.isBlank = true := by
  constructor
  · intro h
    -- Induction from the end, since the last step that is spoken decides.
    induction steps using List.reverseRecOn with
    | nil => exact .inl ⟨h, fun s hs => by cases hs⟩
    | append_singleton steps s ih =>
      rw [pending_append_singleton, Bool.or_eq_true, Bool.and_eq_true] at h
      rcases h with hs | ⟨hs, h⟩
      · exact .inr ⟨steps, s, [], rfl, hs, fun t ht => by cases ht⟩
      · rcases ih h with ⟨hexpected, hblank⟩ | ⟨before, t, after, rfl, ht, hblank⟩
        · refine .inl ⟨hexpected, fun t ht => ?_⟩
          rcases List.mem_append.mp ht with ht | ht
          · exact hblank t ht
          · exact List.mem_singleton.mp ht ▸ hs
        · refine .inr ⟨before, t, after ++ [s], by simp, ht, fun u hu => ?_⟩
          rcases List.mem_append.mp hu with hu | hu
          · exact hblank u hu
          · exact List.mem_singleton.mp hu ▸ hs
  · rintro (⟨rfl, hblank⟩ | ⟨before, s, after, rfl, hs, hblank⟩)
    · exact pending_of_blank hblank
    · rw [List.append_cons, pending_append, pending_append_singleton, hs,
        Bool.true_or]
      exact pending_of_blank hblank

theorem nextSpoken?_eq_some_iff :
    nextSpoken? steps = some s ↔ s.isBlank = false ∧ ∃ before after,
      steps = before ++ s :: after ∧ ∀ t ∈ before, t.isBlank = true := by
  simp [nextSpoken?, List.find?_eq_some_iff_append]

theorem nextSpoken?_eq_none_iff :
    nextSpoken? steps = none ↔ ∀ s ∈ steps, s.isBlank = true := by
  simp [nextSpoken?]

end Step

namespace Analysis

variable {g : Grammar} {a b : Analysis}

def rootAwaitsVowel (a : Analysis) : Bool := a.root.expectations.contains .vowelStart

/-- Whatever was spoken when a vowel was expected starts with a vowel. -/
def MeetsVowels (a : Analysis) : Prop :=
  Step.Each (fun before s => Step.pending a.rootAwaitsVowel before = true → s.isBlank = false →
    s.startsWithVowel = true) a.steps

/-- Wherever a vowel is asked for, by the root or by a step, something follows that is spoken, and
    the first that is spoken starts with a vowel. -/
structure VoicedBeforeVowels (a : Analysis) : Prop where
  root : a.rootAwaitsVowel = true → Step.VowelNext a.steps
  step : ∀ before s after, a.steps = before ++ s :: after → s.awaitsVowel = true →
    Step.VowelNext after

theorem contains_expectationsAfter (previous : PhoneticExpectations) (r : Realization) :
    (expectationsAfter previous r).contains .vowelStart =
      (decide (r.awaits = some .vowelStart) || r.isBlank && previous.contains .vowelStart) := by
  unfold expectationsAfter
  cases r.isBlank <;> rcases r.awaits with _ | _ | _ <;> simp

theorem contains_expectations_replay (root : Root) (state : StateId) (rest : Word)
    (steps : List Step) :
    (replay g root state rest steps).expectations.contains .vowelStart =
      Step.pending (root.expectations.contains .vowelStart) steps := by
  induction steps using List.reverseRecOn with
  | nil => rfl
  | append_singleton steps s ih =>
    rw [replay_append_singleton, expectations_extend, contains_expectationsAfter, ih,
      Step.pending_append_singleton]
    rfl

/-- A trace expects a vowel exactly while an expectation is pending. -/
theorem IsTrace.contains_expectations (h : a.IsTrace g) :
    a.expectations.contains .vowelStart = Step.pending a.rootAwaitsVowel a.steps := by
  have hreplay := contains_expectations_replay (g := g) a.root a.rootState [] a.steps
  rw [h.replayed] at hreplay
  exact hreplay

/-- Nothing is spoken when a vowel is expected unless it starts with one. -/
theorem Allows.startsWithVowel {r : Realization} {target : StateId} (h : a.Allows g r target)
    (hexpected : a.expectations.contains .vowelStart = true) (hspoken : r.isBlank = false) :
    r.text.head?.any Alphabet.isVowel = true := by
  have hgate := h.expected
  cases htext : r.text with
  | nil =>
    rw [Realization.isBlank, htext] at hspoken
    cases hspoken
  | cons c cs =>
    have hne : a.expectations.isEmpty = false := by
      by_contra hempty
      have hzero : a.expectations.bits = 0 := by simpa [FlagSet.isEmpty] using hempty
      rw [show a.expectations = ∅ from FlagSet.ext_bits hzero, FlagSet.contains_empty] at hexpected
      cases hexpected
    simp only [meetsExpectations, PhoneticExpectations.areMetBy, htext, hne, List.head?_cons,
      Option.map_some, Option.toList_some, List.isEmpty_cons, List.any_cons, List.any_nil,
      Bool.false_or, Bool.or_false, List.all_eq_true, FlagSet.mem_toList] at hgate
    exact hgate .vowelStart hexpected

theorem meetsVowels_begin (root : Root) (state : StateId) (rest : Word) :
    (begin root state rest).MeetsVowels :=
  Step.each_nil

theorem meetsVowels_extend_iff {r : Realization} {target : StateId} :
    (a.extend g r target).MeetsVowels ↔ a.MeetsVowels ∧
      (Step.pending a.rootAwaitsVowel a.steps = true → r.isBlank = false →
        r.text.head?.any Alphabet.isVowel = true) :=
  Step.each_append_singleton

namespace MeetsVowels

/-- Steps along the grammar meet the expectations before them. -/
theorem takes (h : a.MeetsVowels) (htrace : a.IsTrace g) (hab : a.Takes g b) : b.MeetsVowels := by
  obtain ⟨r, target, -, hallows, rfl⟩ := hab
  refine meetsVowels_extend_iff.mpr ⟨h, fun hpending hspoken => ?_⟩
  rw [← htrace.contains_expectations] at hpending
  exact hallows.startsWithVowel hpending hspoken

/-- A path on which no step but the last asks for a vowel meets expectations, whatever its steps
    are, if none is pending before it. -/
theorem follow {steps : List PathStep} (h : a.MeetsVowels)
    (hpending : Step.pending a.rootAwaitsVowel a.steps = false)
    (hvoiced : ∀ s ∈ steps.dropLast, s.voiced = false)
    (hb : FixedPaths.follow g a steps = .ok b) : b.MeetsVowels := by
  induction steps generalizing a with
  | nil =>
    cases hb
    exact h
  | cons s rest ih =>
    obtain ⟨⟨r, target⟩, hr, hb⟩ := Except.bind_eq_ok_iff.mp hb
    have hnext : (a.extend g r target).MeetsVowels :=
      meetsVowels_extend_iff.mpr ⟨h, fun hp => absurd hp (by simp [hpending])⟩
    cases rest with
    | nil =>
      cases hb
      exact hnext
    | cons t rest =>
      rw [List.dropLast_cons_of_ne_nil (List.cons_ne_nil t rest)] at hvoiced
      have hs : s.voiced = false := hvoiced s (List.mem_cons_self ..)
      have hawaits : r.awaits = none := PathStep.awaits_of_resolve hr hs
      refine ih hnext ?_ (fun u hu => hvoiced u (List.mem_cons_of_mem _ hu)) hb
      rw [steps_extend, Step.pending_append_singleton]
      change (decide (r.awaits = some .vowelStart) || r.isBlank &&
        Step.pending a.rootAwaitsVowel a.steps) = false
      simp [hawaits, hpending]

/-- The first that is spoken while a vowel is expected starts with a vowel. -/
theorem startsWithVowel (h : a.MeetsVowels) (before : List Step) {after : List Step} {s : Step}
    (hsteps : a.steps = before ++ after)
    (hpending : Step.pending a.rootAwaitsVowel before = true)
    (hnext : Step.nextSpoken? after = some s) : s.startsWithVowel = true := by
  obtain ⟨hspoken, silent, rest, rfl, hblank⟩ := Step.nextSpoken?_eq_some_iff.mp hnext
  refine h (before ++ silent) s rest (by simp [hsteps]) ?_ hspoken
  rw [Step.pending_append, hpending]
  exact Step.pending_of_blank hblank

/-- A vowel follows wherever one is asked for exactly when no expectation is pending in the end. -/
theorem voicedBeforeVowels_iff (h : a.MeetsVowels) :
    a.VoicedBeforeVowels ↔ Step.pending a.rootAwaitsVowel a.steps = false := by
  constructor
  · intro hvoiced
    rw [← Bool.not_eq_true, Step.pending_eq_true_iff]
    rintro (⟨hroot, hblank⟩ | ⟨before, s, after, hsteps, hs, hblank⟩)
    · obtain ⟨t, ht, -⟩ := hvoiced.root hroot
      rw [Step.nextSpoken?_eq_none_iff.mpr hblank] at ht
      cases ht
    · obtain ⟨t, ht, -⟩ := hvoiced.step before s after hsteps hs
      rw [Step.nextSpoken?_eq_none_iff.mpr hblank] at ht
      cases ht
  · intro hpending
    rw [← Bool.not_eq_true, Step.pending_eq_true_iff, not_or] at hpending
    obtain ⟨hroot, hstep⟩ := hpending
    constructor
    · intro hawaits
      cases hnext : Step.nextSpoken? a.steps with
      | none => exact absurd ⟨hawaits, Step.nextSpoken?_eq_none_iff.mp hnext⟩ hroot
      | some s => exact ⟨s, hnext, h.startsWithVowel [] rfl hawaits hnext⟩
    · intro before s after hsteps hs
      cases hnext : Step.nextSpoken? after with
      | none =>
        exact absurd ⟨before, s, after, hsteps, hs, Step.nextSpoken?_eq_none_iff.mp hnext⟩ hstep
      | some t =>
        refine ⟨t, hnext, h.startsWithVowel (before ++ [s]) (by simp [hsteps]) ?_ hnext⟩
        rw [Step.pending_append_singleton, hs, Bool.true_or]

end MeetsVowels

end Analysis

end TurkishMorphology
