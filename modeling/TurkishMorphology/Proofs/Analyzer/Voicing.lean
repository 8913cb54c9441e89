import TurkishMorphology.Proofs.Analysis.Expectation
import TurkishMorphology.Proofs.Analyzer.Soundness
/-!
# Voiced stops and the vowels after them

A voiced stop, in an altered root or at the end of a suffix, asks for a vowel. In the analyses of a
word whatever is spoken next starts with a vowel. But steps that add nothing may lead to a terminal
state before anything is spoken, and then the analysis counts all the same: `kitab` is analysed as
the nominative of `kitap`.

## Main statements

- `FixedPaths.rootAwaitsVowel_of_isPathOf` — roots with fixed paths do not ask for a vowel
- `Analyzer.vowels_of_mem_parse` — when a vowel follows wherever one is asked for
- `Analyzer.exists_pending_vowel` — a word with an analysis in which none follows
-/

namespace TurkishMorphology

namespace Irregular

/-- On the paths of irregular roots only the last step may be voiced. -/
theorem voiced_eq_false_of_mem_dropLast : ∀ d ∈ drafts, ∀ steps ∈ d.paths,
    ∀ s ∈ steps.dropLast, s.voiced = false := by
  decide

/-- The spelling of an irregular root is the lemma root, or has a letter that no regular
    alternation would give it. -/
theorem surface_of_mem_drafts : ∀ d ∈ drafts, d.surface = d.lemmaRoot ∨
    ∃ c ∈ d.surface, c ∉ d.lemmaRoot ∧ c ∉ Alphabet.voicedChars := by
  have hall : drafts.all (fun d => d.surface == d.lemmaRoot || d.surface.any fun c =>
      !d.lemmaRoot.contains c && !Alphabet.voicedChars.contains c) = true := by decide
  intro d hd
  simpa using List.all_eq_true.mp hall d hd

theorem hasCircumflex_of_mem_drafts : ∀ d ∈ drafts, ∀ c ∈ d.lemmaRoot ++ Alphabet.voicedChars,
    Alphabet.hasCircumflex c = false := by
  have hall : drafts.all (fun d => (d.lemmaRoot ++ Alphabet.voicedChars).all fun c =>
      !Alphabet.hasCircumflex c) = true := by decide
  intro d hd c hc
  simpa using List.all_eq_true.mp (List.all_eq_true.mp hall d hd) c hc

end Irregular

namespace FixedPaths

variable {g : Grammar} {index : RootIndex} {root : Root} {path : Analysis}

/-- Roots with fixed paths do not ask for a vowel: they are spelled otherwise than altered
    stems. -/
theorem rootAwaitsVowel_of_isPathOf {lexicon : LexiconOptions} {lexemes : List Lexeme}
    (hindex : RootIndex.ofLexemes lexicon lexemes = .ok index)
    (h : IsPathOf g index Irregular.drafts root path) : path.rootAwaitsVowel = false := by
  rw [Analysis.rootAwaitsVowel, h.root_eq]
  obtain ⟨d, hd, ⟨hget, hconcerns⟩, -⟩ := h.made
  have hlemma : root.lexeme.lemmaRoot = d.lemmaRoot := by
    simp only [concerns, decide_eq_true_eq] at hconcerns
    exact hconcerns.1
  obtain ⟨hsurface, t, hcopy, -, hlexeme, hspells⟩ :=
    RootIndex.exists_root_of_mem_get hindex hget
  have hsame : root.expectations = t.expectations := by
    rcases Lexeme.mem_withPlainCopy_iff.mp hcopy with rfl | ⟨-, rfl⟩ <;> rfl
  rw [hsame]
  cases hspells with
  | unaltered _ hexpectations => exact hexpectations
  | irregular _ hexpectations => rw [hexpectations, FlagSet.contains_empty]
  | altered hne hletters =>
    -- No irregular spelling is made of letters that an altered stem can have.
    exfalso
    rw [hlemma] at hne hletters
    have hplain : t.surface.any Alphabet.hasCircumflex = false := by
      rw [List.any_eq_false]
      intro c hc
      rw [Irregular.hasCircumflex_of_mem_drafts d hd c (List.mem_append.mpr (hletters c hc))]
      exact Bool.false_ne_true
    have hroot : root = t := by
      rcases Lexeme.mem_withPlainCopy_iff.mp hcopy with hroot | ⟨hcircumflex, -⟩
      · exact hroot
      · rw [hplain] at hcircumflex
        cases hcircumflex
    rw [← hroot, hsurface] at hne hletters
    rcases Irregular.surface_of_mem_drafts d hd with heq | ⟨c, hc, hlemma, hvoiced⟩
    · exact hne heq
    · exact (hletters c hc).elim hlemma hvoiced

end FixedPaths

namespace Analyzer

variable {z : Analyzer} {word : Word} {a b : Analysis} {index : RootIndex} {options : Options}
  {lexicon : LexiconOptions} {lexemes : List Lexeme}

namespace IsTurkish

/-- Seeds meet expectations, those from fixed paths too. -/
theorem meetsVowels_of_seeds (h : z.IsTurkish index options)
    (hindex : RootIndex.ofLexemes lexicon lexemes = .ok index) {root : Root} {rest : Word}
    (ha : z.Seeds word root rest a) : a.MeetsVowels := by
  cases ha with
  | @path path _ _ hmem hrebase =>
    have hpath := h.isPathOf hmem
    obtain ⟨-, rfl⟩ := Analysis.rebase_eq_some_iff.mp hrebase
    have hroot := FixedPaths.rootAwaitsVowel_of_isPathOf hindex hpath
    rw [Analysis.rootAwaitsVowel, hpath.root_eq] at hroot
    obtain ⟨d, hd, -, state, -, steps, hsteps, hfollow⟩ := hpath.made
    have hvoiced := Irregular.voiced_eq_false_of_mem_dropLast d hd steps hsteps
    have hmeets : path.MeetsVowels :=
      (Analysis.meetsVowels_begin root state []).follow hroot hvoiced hfollow
    exact hmeets
  | root _ _ => exact Analysis.meetsVowels_begin root _ rest

theorem meetsVowels_of_reaches (h : z.IsTurkish index options)
    (hindex : RootIndex.ofLexemes lexicon lexemes = .ok index) (hb : z.Reaches word b) :
    b.IsTrace z.grammar ∧ b.MeetsVowels := by
  obtain ⟨beginning, root, ⟨-, hbegins, -, hroot⟩, a, hseed, hab⟩ := h.derives_of_reaches hb
  obtain rfl := h.spells hindex beginning word root hroot
  have hgrows := h.grows_of_seeds (List.prefix_iff_eq_append.mp hbegins) hseed
  have hmeets := h.meetsVowels_of_seeds hindex hseed
  clear hb
  -- That the analysis is a trace is carried along: it says which expectations are pending.
  induction hab with
  | refl => exact ⟨hgrows.reads.trace, hmeets⟩
  | tail _ hbc ih =>
    obtain ⟨htrace, hmeets⟩ := ih
    refine ⟨?_, hmeets.takes htrace hbc⟩
    obtain ⟨r, target, -, -, rfl⟩ := hbc
    exact htrace.extend

end IsTurkish

/-- In the analyses of a word, whatever is spoken when a vowel is expected starts with a vowel. A
    vowel follows wherever one is asked for exactly when none is expected in the end. -/
theorem vowels_of_mem_parse {text : Word} {results : List Analysis}
    (hz : ofDictionary lexicon options text = .ok z) (h : z.parse word = .ok results)
    (ha : a ∈ results) :
    a.MeetsVowels ∧
      (a.VoicedBeforeVowels ↔ a.expectations.contains .vowelStart = false) := by
  obtain ⟨lexemes, -, index, hindex, hturkish⟩ := ofDictionary_eq_ok_iff.mp hz
  obtain ⟨hreaches, -, -⟩ := (mem_parse_iff hturkish.stops h).mp ha
  obtain ⟨htrace, hmeets⟩ := hturkish.meetsVowels_of_reaches hindex hreaches
  refine ⟨hmeets, ?_⟩
  rw [htrace.contains_expectations]
  exact hmeets.voicedBeforeVowels_iff

/-- The analyser over a dictionary with the verb `gelmek`. -/
def gelmek : Analyzer := evaluate {} {} "gelmek".toList (by decide +kernel)

/-- The future ends in a voiced stop before the first person. -/
theorem vowels_of_mem_parse_future :
    ofDictionary {} {} "gelmek".toList = .ok gelmek ∧
      ∃ results, gelmek.parse "geleceğim".toList = .ok results ∧
        results.any (fun a => a.steps.any Step.awaitsVowel) = true ∧
        ∀ a ∈ results, a.MeetsVowels ∧
          (a.VoicedBeforeVowels ↔ a.expectations.contains .vowelStart = false) := by
  have hz : ofDictionary {} {} "gelmek".toList = .ok gelmek := ofDictionary_evaluate _
  obtain ⟨results, hparse, hvoiced⟩ := exists_of_finds hz "geleceğim".toList
    (fun results => results.any fun a => a.steps.any Step.awaitsVowel) (by decide +kernel)
  exact ⟨hz, results, hparse, hvoiced, fun a ha => vowels_of_mem_parse hz hparse ha⟩

/-- The analyser over a dictionary with the noun `kitap`. -/
def kitap : Analyzer := evaluate {} {} "kitap".toList (by decide +kernel)

/-- The stem `kitab` asks for a vowel, but it is analysed as a word, after which nothing is
    spoken. -/
theorem exists_pending_vowel :
    ofDictionary {} {} "kitap".toList = .ok kitap ∧
      ∃ results, kitap.parse "kitab".toList = .ok results ∧
        ∃ a ∈ results, a.rootAwaitsVowel = true ∧ ¬ a.VoicedBeforeVowels := by
  have hz : ofDictionary {} {} "kitap".toList = .ok kitap := ofDictionary_evaluate _
  obtain ⟨results, hparse, hsilent⟩ := exists_of_finds hz "kitab".toList
    (fun results => results.any fun a => a.rootAwaitsVowel && a.steps.all Step.isBlank)
    (by decide +kernel)
  obtain ⟨a, ha, hroot, hblank⟩ : ∃ a ∈ results, a.rootAwaitsVowel = true ∧
      ∀ s ∈ a.steps, s.isBlank = true := by simpa using hsilent
  refine ⟨hz, results, hparse, a, ha, hroot, fun hvoiced => ?_⟩
  obtain ⟨s, hs, -⟩ := hvoiced.root hroot
  rw [Step.nextSpoken?_eq_none_iff.mpr hblank] at hs
  cases hs

end Analyzer

end TurkishMorphology
