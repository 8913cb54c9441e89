import TurkishMorphology.Proofs.Analysis.Progressive
import TurkishMorphology.Proofs.Analyzer.Cells
/-!
# Words that forced steps give up

A word is given up because of a forced step exactly when the progressive is forced on a root found
in it and refused there for another reason than the input: the root wants the other kind of letter,
or it ends in a stop that the progressive would voice. The root need not be one that the word is
made of; some beginning of the word spells it, and that is enough.

## Main definitions

- `Analyzer.ForcesProgressive` — a root found in a word, on which the progressive is forced

## Main statements

- `Analyzer.forcedStepRefused_iff` — which words are given up, and why
- `Analyzer.exists_word_given_up` — a noun given up because of a verb that begins like it
-/

namespace TurkishMorphology

namespace Analyzer

variable {z : Analyzer} {word : Word} {a : Analysis} {index : RootIndex} {options : Options}
  {lexicon : LexiconOptions} {lexemes : List Lexeme} {root : Root} {fault : AnalysisFault}

/-- The altered root of a verb that drops its vowel before the progressive, found in a word and
    without fixed paths. -/
structure ForcesProgressive (z : Analyzer) (word : Word) (root : Root) : Prop where
  finds : ∃ beginning, z.Finds word beginning root
  pathless : z.fixedPaths.has root = false
  verb : root.lexeme.pos = .verb
  drops : root.lexeme.has .progressiveVowelDrop = true
  altered : root.isUnaltered = false

namespace IsTurkish

/-- The rule is about the roots that it is meant for, and never about fixed paths, which have steps
    already. -/
theorem applies_progressive_iff (h : z.IsTurkish index options) {rest : Word}
    (ha : z.Seeds word root rest a) :
    Forcing.progressive.applies a = true ↔
      a = Analysis.begin root Turkish.StateName.verbRoot.id rest ∧
        z.fixedPaths.has root = false ∧ root.lexeme.pos = .verb ∧
        root.lexeme.has .progressiveVowelDrop = true ∧ root.isUnaltered = false := by
  have happlies : Forcing.progressive.applies a = true ↔
      Turkish.StateName.verbRoot.id = a.state ∧
        (a.root.lexeme.has .progressiveVowelDrop = true ∧ a.root.isUnaltered = false) ∧
        a.steps.isEmpty = true := by
    simp [ForcedRule.applies, Forcing.progressive, Forcing.progressiveRule, Condition.holds]
  rw [happlies]
  cases ha with
  | path has hmem hrebase =>
    have hsteps : a.steps ≠ [] := by
      obtain ⟨-, rfl⟩ := Analysis.rebase_eq_some_iff.mp hrebase
      have hpath := h.isPathOf hmem
      rw [h.grammar] at hpath
      exact hpath.steps_ne_nil
    simp [hsteps, has]
  | @root state hnone hstate =>
    rw [h.grammar] at hstate
    constructor
    · rintro ⟨hverb, ⟨hdrops, haltered⟩, -⟩
      obtain rfl : Turkish.StateName.verbRoot.id = state := hverb
      exact ⟨rfl, hnone, Turkish.rootState_eq_verbRoot_iff.mp hstate, hdrops, haltered⟩
    · rintro ⟨hbegin, -, -, hdrops, haltered⟩
      have hverb : state = Turkish.StateName.verbRoot.id := congrArg Analysis.state hbegin
      exact ⟨hverb.symm, ⟨hdrops, haltered⟩, rfl⟩

/-- Forcing fails for the seed of a root exactly when the progressive is forced on the root and
    there is a reason against it other than the input. -/
theorem applyTo_eq_error_iff (h : z.IsTurkish index options) (hroot : root.HasContext) {rest : Word}
    (ha : z.Seeds word root rest a) :
    z.forcing.applyTo z.grammar a = .error fault ↔
      Forcing.progressive.applies a = true ∧ ∃ refusal, root.progressiveRefusal? = some refusal ∧
        fault = .forcedStepRefused "Prog" refusal := by
  rw [Forcing.eq_of_turkish h.forcing, h.grammar]
  unfold Forcing.applyTo
  rw [List.find?_singleton]
  by_cases happlies : Forcing.progressive.applies a = true
  · obtain ⟨rfl, -, -, -, haltered⟩ := (h.applies_progressive_iff ha).mp happlies
    simp only [happlies, if_true, true_and]
    exact Forcing.takeSteps_progressive_eq_error_iff hroot haltered
  · simp [happlies]

theorem forcesProgressive_of_applies (h : z.IsTurkish index options) {beginning : Word}
    (hfinds : z.Finds word beginning root) {rest : Word} (ha : z.Seeds word root rest a)
    (happlies : Forcing.progressive.applies a = true) : z.ForcesProgressive word root := by
  obtain ⟨-, hnone, hverb, hdrops, haltered⟩ := (h.applies_progressive_iff ha).mp happlies
  exact ⟨⟨beginning, hfinds⟩, hnone, hverb, hdrops, haltered⟩

/-- The first generation fails because of some root on which the progressive is forced and
    refused. -/
theorem exists_of_firstGeneration_eq_error (h : z.IsTurkish index options)
    (hindex : RootIndex.ofLexemes lexicon lexemes = .ok index)
    (hfault : z.firstGeneration word = .error fault) :
    ∃ root refusal, z.ForcesProgressive word root ∧ root.progressiveRefusal? = some refusal ∧
      fault = .forcedStepRefused "Prog" refusal := by
  obtain ⟨seeds, hseeds⟩ := h.exists_seeds_eq_ok word
  rw [firstGeneration, hseeds] at hfault
  obtain ⟨-, a, ha, hrefused⟩ := Forcing.apply_eq_error hfault
  obtain ⟨beginning, root, hfinds, hseed⟩ := (mem_seeds_iff hseeds).mp ha
  obtain ⟨happlies, refusal, hrefusal, rfl⟩ :=
    (h.applyTo_eq_error_iff (h.hasContext hindex hfinds) hseed).mp hrefused
  exact ⟨root, refusal, h.forcesProgressive_of_applies hfinds hseed happlies, hrefusal, rfl⟩

theorem exists_firstGeneration_eq_error (h : z.IsTurkish index options)
    (hindex : RootIndex.ofLexemes lexicon lexemes = .ok index)
    (hforces : z.ForcesProgressive word root)
    (hrefusal : root.progressiveRefusal?.isSome = true) :
    ∃ fault, z.firstGeneration word = .error fault := by
  obtain ⟨seeds, hseeds⟩ := h.exists_seeds_eq_ok word
  obtain ⟨beginning, hfinds⟩ := hforces.finds
  obtain ⟨refusal, hrefusal⟩ := Option.isSome_iff_exists.mp hrefusal
  have hstate : z.grammar.rootState root = .ok Turkish.StateName.verbRoot.id := by
    rw [h.grammar]
    exact Turkish.rootState_eq_verbRoot_iff.mpr hforces.verb
  have hseed : z.Seeds word root (word.drop beginning.length)
      (Analysis.begin root Turkish.StateName.verbRoot.id (word.drop beginning.length)) :=
    .root hforces.pathless hstate
  have happlies := (h.applies_progressive_iff hseed).mpr
    ⟨rfl, hforces.pathless, hforces.verb, hforces.drops, hforces.altered⟩
  have hrefused := (h.applyTo_eq_error_iff (h.hasContext hindex hfinds) hseed).mpr
    ⟨happlies, refusal, hrefusal, rfl⟩
  have hmem := (mem_seeds_iff hseeds).mpr ⟨beginning, root, hfinds, hseed⟩
  obtain ⟨fault, hfault⟩ := Forcing.exists_apply_eq_error hmem hrefused
  exact ⟨fault, by rw [firstGeneration, hseeds]; exact hfault⟩

end IsTurkish

/-- A word is given up because of a forced step exactly when the progressive is forced on some root
    found in it and there is a reason against the progressive other than the input. Then the step is
    the progressive, and the reason is the one there is for such a root. -/
theorem forcedStepRefused_iff {text : Word} (hz : ofDictionary lexicon options text = .ok z)
    (word : Word) :
    ((∃ suffix refusal, z.parse word = .error ⟨word, .forcedStepRefused suffix refusal⟩) ↔
      ∃ root, z.ForcesProgressive word root ∧ root.progressiveRefusal?.isSome = true) ∧
    ∀ suffix refusal, z.parse word = .error ⟨word, .forcedStepRefused suffix refusal⟩ →
      suffix = "Prog" ∧
        ∃ root, z.ForcesProgressive word root ∧ root.progressiveRefusal? = some refusal := by
  obtain ⟨lexemes, -, index, hindex, hturkish⟩ := ofDictionary_eq_ok_iff.mp hz
  have hreason : ∀ suffix refusal,
      z.parse word = .error ⟨word, .forcedStepRefused suffix refusal⟩ → suffix = "Prog" ∧
        ∃ root, z.ForcesProgressive word root ∧ root.progressiveRefusal? = some refusal := by
    intro suffix refusal herror
    rcases hturkish.parse_eq_error hindex herror with ⟨hfirst, -⟩ | ⟨_, -, -, count, hexceeded⟩
    · obtain ⟨root, refusal', hforces, hrefusal, hfault⟩ :=
        hturkish.exists_of_firstGeneration_eq_error hindex hfirst
      cases hfault
      exact ⟨rfl, root, hforces, hrefusal⟩
    · cases hexceeded
  refine ⟨⟨?_, ?_⟩, hreason⟩
  · rintro ⟨suffix, refusal, herror⟩
    obtain ⟨-, root, hforces, hrefusal⟩ := hreason suffix refusal herror
    exact ⟨root, hforces, by rw [hrefusal]; rfl⟩
  · rintro ⟨root, hforces, hrefusal⟩
    obtain ⟨fault, hfault⟩ := hturkish.exists_firstGeneration_eq_error hindex hforces hrefusal
    obtain ⟨-, refusal, -, -, rfl⟩ := hturkish.exists_of_firstGeneration_eq_error hindex hfault
    refine ⟨"Prog", refusal, ?_⟩
    rw [parse, run_eq, hfault]
    rfl

/-- The analyser over a dictionary with the verb `maamak` and the noun `masa`. -/
def maamakAndMasa : Analyzer :=
  evaluate {} {} "maamak\nmasa".toList (by decide +kernel)

/-- The altered root `ma` of `maamak` still ends in a vowel, but wants a vowel next. -/
theorem firstGeneration_masa :
    maamakAndMasa.firstGeneration "masa".toList =
      .error (.forcedStepRefused "Prog" .expectationUnmet) := by
  decide +kernel

/-- The reason against `masa` comes from a root of `maamak`. -/
theorem forcedStepRefused_iff_masa :
    ofDictionary {} {} "maamak\nmasa".toList = .ok maamakAndMasa ∧
      ∃ root, maamakAndMasa.ForcesProgressive "masa".toList root ∧
        root.progressiveRefusal? = some .expectationUnmet := by
  have hz : ofDictionary {} {} "maamak\nmasa".toList = .ok maamakAndMasa :=
    ofDictionary_evaluate _
  have herror : maamakAndMasa.parse "masa".toList =
      .error ⟨"masa".toList, .forcedStepRefused "Prog" .expectationUnmet⟩ := by
    rw [parse, run_eq, firstGeneration_masa]
    rfl
  exact ⟨hz, ((forcedStepRefused_iff hz _).2 _ _ herror).2⟩

/-- The noun `masa` is given up in a dictionary that lists it, because a root of the verb `maamak`
    begins it. -/
theorem exists_word_given_up :
    ofDictionary {} {} "maamak\nmasa".toList = .ok maamakAndMasa ∧
      maamakAndMasa.parse "masa".toList =
        .error ⟨"masa".toList, .forcedStepRefused "Prog" .expectationUnmet⟩ := by
  refine ⟨ofDictionary_evaluate _, ?_⟩
  rw [parse, run_eq, firstGeneration_masa]
  rfl

end Analyzer

end TurkishMorphology
