import TurkishMorphology.Proofs.Analysis.Forcing
import TurkishMorphology.Proofs.Analysis.Position
import TurkishMorphology.Proofs.Lexicon.Context
/-!
# The forced progressive

A verb that lost its vowel before the progressive takes the positive and the progressive, whatever
the input says. The positive is never refused, and nothing that was taken before speaks against the
progressive. It is refused if it begins with a vowel where the root wants a consonant or the other
way round, and if its vowel would voice the stop that the root ends in; what is left is a matter of
the input.

## Main definitions

- `Root.progressiveRefusal?` — why the progressive is refused after a root on which it is forced

## Main statements

- `Forcing.takeSteps_progressive_eq_error_iff` — when the forced steps are refused
-/

namespace TurkishMorphology

/-- Why the progressive is refused after an altered root, unless only the input may be against it.
    After a consonant the progressive begins with its vowel. -/
def Root.progressiveRefusal? (r : Root) : Option Refusal :=
  let beginsWithVowel := r.attributes.contains .lastLetterConsonant
  let endsInUnvoicedStop :=
    (r.surface.getLast?.any fun c => (Alphabet.letter c).isVoicelessStop)
      && !r.lexeme.has .noVoicing
  if !r.expectations.areMetBy [beginsWithVowel] then some .expectationUnmet
  else if beginsWithVowel && endsInUnvoicedStop then some .stopUnvoiced
  else none

namespace Turkish

def posForm : FormId := ⟨SuffixName.pos.firstForm⟩

def progForm : FormId := ⟨SuffixName.prog.firstForm⟩

theorem form_posForm :
    grammar.form posForm = { suffix := SuffixName.pos.id, template := .of [] } := by
  decide +kernel

theorem form_progForm :
    grammar.form progForm =
      { suffix := SuffixName.prog.id, template := .of ['+', 'I', 'y', 'o', 'r']
        guards := { before := some (.negation wholeDroppingRoot) } } := by
  decide +kernel

theorem group_pos :
    (grammar.suffix SuffixName.pos.id).group = some GroupName.polarities.id := by
  decide

theorem isDerivational_verbRoot :
    (grammar.state StateName.verbRoot.id).isDerivational = false := by
  decide

/-- The positive adds nothing. -/
theorem plainRealization_posForm (a : PhoneticAttributes) :
    grammar.plainRealization posForm a = ⟨posForm, SuffixName.pos.id, [], [], none⟩ := by
  simp [Grammar.plainRealization, form_posForm]
  rfl

/-- The progressive resolves in every context, and begins with a vowel after a consonant only. -/
theorem resolve_progForm {a : PhoneticAttributes} (ha : a ∈ Phonetics.contexts) :
    (grammar.form progForm).template.isApplicable a = true ∧
      ∃ c cs, (grammar.form progForm).template.resolve a = c :: cs ∧
        Alphabet.isVowel c = a.contains .lastLetterConsonant := by
  have hall : ∀ a ∈ Phonetics.contexts, (grammar.form progForm).template.isApplicable a = true ∧
      ((grammar.form progForm).template.resolve a).head?.map Alphabet.isVowel
        = some (a.contains .lastLetterConsonant) := by
    decide +kernel
  obtain ⟨happ, hhead⟩ := hall a ha
  obtain ⟨c, hc, hvowel⟩ := Option.map_eq_some_iff.mp hhead
  obtain ⟨cs, hcs⟩ := List.head?_eq_some_iff.mp hc
  exact ⟨happ, c, cs, hcs, hvowel⟩

end Turkish

namespace Forcing

open Turkish

variable {root : Root} {rest : Word}

/-- A verb root with the positive. -/
def afterPositive (root : Root) (rest : Word) : Analysis :=
  (Analysis.begin root StateName.verbRoot.id rest).extend grammar
    (grammar.plainRealization posForm root.attributes) StateName.verbWithPolarity.id

theorem takeForm_positive (root : Root) (rest : Word) :
    (Analysis.begin root StateName.verbRoot.id rest).takeForm grammar posForm
      StateName.verbWithPolarity.id = .ok (afterPositive root rest) := by
  refine Analysis.takeForm_eq_ok_iff.mpr ⟨?_, ?_, ?_, rfl⟩
  · rw [form_posForm]
    rfl
  · rw [form_posForm]
    rfl
  · rw [plainRealization_posForm]
    constructor
    · simp [Analysis.hasTakenGroup, group_pos, Analysis.begin]
    · simp [Analysis.hasTaken]
    · simp [form_posForm, Condition.holdsIfAny]
    · rfl
    · rfl
    · exact List.nil_prefix
    · simp [Analysis.lastStep?, Analysis.begin]
    · intro hderivational
      rw [Analysis.begin, isDerivational_verbRoot] at hderivational
      cases hderivational

/-- Since the positive adds nothing, the progressive is judged as if it came after the root. -/
theorem afterPositive_eq (root : Root) (rest : Word) :
    (afterPositive root rest).attributes = root.attributes ∧
      (afterPositive root rest).expectations = root.expectations ∧
      (afterPositive root rest).lexemeAttributes = root.lexeme.attributes ∧
      (afterPositive root rest).surface = root.surface ∧
      (afterPositive root rest).remaining = rest := by
  have hsurface : (afterPositive root rest).surface = root.surface := by
    simp [afterPositive, Analysis.begin, plainRealization_posForm]
  refine ⟨?_, ?_, ?_, hsurface, ?_⟩
  · change Analysis.phoneticView root (afterPositive root rest).surface _ = _
    rw [hsurface]
    simp [Analysis.phoneticView, Word.isBlank]
  · simp [afterPositive, Analysis.begin, plainRealization_posForm, Analysis.expectationsAfter,
      Realization.isBlank, Word.isBlank]
  · simp [afterPositive, Analysis.begin, plainRealization_posForm, Analysis.extend,
      Analysis.lexemeView, Step.isBlank, Realization.isBlank, Word.isBlank]
  · simp [afterPositive, Analysis.begin, plainRealization_posForm]

/-- Nothing that was taken before speaks against the progressive: no tense was, and the root is
    altered. -/
theorem checkHistory_progressive (rest : Word) (haltered : root.isUnaltered = false) :
    (afterPositive root rest).checkHistory grammar (grammar.form progForm).suffix
      (grammar.form progForm) = .ok () := by
  have hprog : (grammar.suffix SuffixName.prog.id).group = some GroupName.tenses.id := by
    decide
  have hgroups : (afterPositive root rest).groups = [GroupName.polarities.id] := by
    simp [afterPositive, Analysis.begin, Analysis.extend, plainRealization_posForm,
      group_pos, isDerivational_verbRoot]
  have hpositions := Analysis.keepsPositions_begin root StateName.verbRoot.id rest
  have hstate : (Analysis.begin root StateName.verbRoot.id rest).state = StateName.verbRoot.id := rfl
  have hrecent : (afterPositive root rest).recentSuffixes = [SuffixName.pos.id] := by
    rw [afterPositive, hpositions.recentSuffixes_extend, hstate, isDerivational_verbRoot,
      plainRealization_posForm]
    simp
  have hderivation : (afterPositive root rest).lastDerivation = none := by
    rw [afterPositive, hpositions.lastDerivation_extend, hstate, isDerivational_verbRoot]
    simp
  have hroot : (afterPositive root rest).root = root := rfl
  rw [form_progForm, Analysis.checkHistory_eq_ok_iff]
  refine ⟨?_, .inr ?_, ?_⟩
  · rw [Analysis.hasTakenGroup, hprog, hgroups]
    decide
  · rw [Analysis.hasTaken, hrecent, hderivation]
    decide
  · simp [Condition.holdsIfAny, Condition.holds, wholeDroppingRoot, hroot, haltered]

theorem checkFollowers_progressive (root : Root) (rest : Word) (next : Analysis) :
    Analysis.checkFollowers grammar (afterPositive root rest) next = .ok () := by
  have hstate : (grammar.state StateName.verbWithPolarity.id).isDerivational = false := by
    decide
  refine Analysis.checkFollowers_eq_ok_iff.mpr ⟨fun t ht => ?_, fun hderivational => ?_⟩
  · have hlast : t.realization.form = posForm := by
      simp only [Analysis.lastStep?, afterPositive, Analysis.steps_extend, List.getLast?_concat,
        Option.some.injEq] at ht
      subst ht
      rfl
    rw [hlast, form_posForm]
    rfl
  · change (grammar.state StateName.verbWithPolarity.id).isDerivational = true at hderivational
    rw [hstate] at hderivational
    cases hderivational

/-- The progressive is refused for its first letter, for the stop before it, or for the input. -/
theorem takeForm_progressive (rest : Word) (hroot : root.HasContext)
    (haltered : root.isUnaltered = false) (target : StateId) :
    (∃ refusal, root.progressiveRefusal? = some refusal ∧ refusal ≠ .inputDiffers ∧
      (afterPositive root rest).takeForm grammar progForm target = .error refusal) ∨
    root.progressiveRefusal? = none ∧
      ((afterPositive root rest).takeForm grammar progForm target = .error .inputDiffers ∨
        ∃ b, (afterPositive root rest).takeForm grammar progForm target = .ok b) := by
  obtain ⟨hattributes, hexpectations, hlexeme, hsurface, -⟩ := afterPositive_eq root rest
  obtain ⟨happ, c, cs, hresolve, hvowel⟩ := resolve_progForm hroot.attributes
  have hmeets : (afterPositive root rest).meetsExpectations (Analysis.startsOf
      (grammar.form progForm).template (some (c :: cs))) =
        root.expectations.areMetBy [root.attributes.contains .lastLetterConsonant] := by
    simp [Analysis.meetsExpectations, Analysis.startsOf, hexpectations, hvowel]
  have hfollows : (afterPositive root rest).mayFollow (c :: cs) =
      !(root.attributes.contains .lastLetterConsonant &&
        ((root.surface.getLast?.any fun c => (Alphabet.letter c).isVoicelessStop)
          && !root.lexeme.has .noVoicing)) := by
    simp [Analysis.mayFollow, Analysis.mustVoice, hsurface, hlexeme, hvowel, Lexeme.has]
  rw [Analysis.takeForm_eq (checkHistory_progressive rest haltered) (hattributes ▸ happ)
    (checkFollowers_progressive root rest _), hattributes, hresolve]
  simp only [hmeets, hfollows, Root.progressiveRefusal?, Bool.not_not]
  split
  · exact .inl ⟨_, rfl, nofun, rfl⟩
  · split
    · exact .inl ⟨_, rfl, nofun, rfl⟩
    · refine .inr ⟨rfl, ?_⟩
      split
      · exact .inl rfl
      · exact .inr ⟨_, rfl⟩

/-- The forced steps fail exactly where there is a reason against the progressive other than the
    input. -/
theorem takeSteps_progressive_eq_error_iff (hroot : root.HasContext)
    (haltered : root.isUnaltered = false) {fault : AnalysisFault} :
    takeSteps grammar (Analysis.begin root StateName.verbRoot.id rest) progressive.steps
        = .error fault ↔
      ∃ refusal, root.progressiveRefusal? = some refusal ∧
        fault = .forcedStepRefused "Prog" refusal := by
  have hsteps : takeSteps grammar (Analysis.begin root StateName.verbRoot.id rest)
      progressive.steps = takeSteps grammar (afterPositive root rest)
        [⟨progForm, StateName.verbWithTense.id, "Prog"⟩] := by
    have hpos := takeForm_positive root rest
    simp only [posForm] at hpos
    simp [progressive, takeSteps, hpos, progForm]
  rw [hsteps]
  rcases takeForm_progressive rest hroot haltered StateName.verbWithTense.id with
    ⟨refusal, hrefusal, hne, htake⟩ | ⟨hnone, htake | ⟨b, htake⟩⟩
  · rw [takeSteps_cons_of_refusal ⟨progForm, StateName.verbWithTense.id, "Prog"⟩ htake hne,
      hrefusal]
    simp [eq_comm]
  · simp [takeSteps, htake, hnone]
  · simp [takeSteps, htake, hnone]

end Forcing

end TurkishMorphology
