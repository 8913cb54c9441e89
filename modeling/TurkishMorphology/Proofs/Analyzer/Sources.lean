import TurkishMorphology.Proofs.Analyzer.Cells
import TurkishMorphology.Proofs.Analyzer.Growth
import TurkishMorphology.Proofs.Lexicon.Acceptance
/-!
# Analysers with other sources

Analysers with the same roots and different sources agree on every word that the sources in which
they differ have nothing to say about. The dictionary is heard on every beginning with a letter.

## Main statements

- `Analyzer.IsTurkish.firstGeneration_eq_of_agreeOn` — the same seeds
- `Analyzer.IsTurkish.parse_eq` — the same analyses, or the same failure
- `Analyzer.parse_source_independent` — the words that a source has nothing to say about
-/

namespace TurkishMorphology

namespace Analyzer

variable {z z' : Analyzer} {options : Options} {sources : SourceOptions} {index : RootIndex}
  {word : Word}

namespace IsTurkish

theorem seedsOf_eq_of_agreeOn (h : z.IsTurkish index options)
    (h' : z'.IsTurkish index { options with sources }) : z.seedsOf = z'.seedsOf := by
  have hpaths : z.fixedPaths = z'.fixedPaths :=
    Except.ok.inj (h.fixedPaths.symm.trans h'.fixedPaths)
  funext word root rest
  simp only [seedsOf, hpaths, h.grammar, h'.grammar]

/-- The roots that are found for the beginnings of the word are the same, and so are their
    analyses before the first step. -/
theorem firstGeneration_eq_of_agreeOn (h : z.IsTurkish index options)
    (h' : z'.IsTurkish index { options with sources })
    (hagree : options.sources.AgreeOn word sources) :
    z.firstGeneration word = z'.firstGeneration word := by
  have hat : ∀ beginning ∈ beginnings word, z.seedsAt word beginning = z'.seedsAt word beginning := by
    intro beginning hbeginning
    obtain ⟨hne, hbegins⟩ := mem_beginnings_iff.mp hbeginning
    rw [seedsAt, seedsAt, h.source, h'.source, hagree.roots_eq hbegins,
      h.seedsOf_eq_of_agreeOn h', SourceOptions.accepts_chain_of_ne_nil hne,
      SourceOptions.accepts_chain_of_ne_nil hne]
  rw [firstGeneration, firstGeneration, seeds, seeds, Except.mapM_congr hat, h.forcing_eq h',
    h.grammar, h'.grammar]

theorem parse_eq (h : z.IsTurkish index options) (h' : z'.IsTurkish index { options with sources })
    (hagree : options.sources.AgreeOn word sources) : z.parse word = z'.parse word := by
  have hsearch : z.search z.options.maxGenerations = z'.search z'.options.maxGenerations := by
    funext as
    rw [h.search_eq h' rfl, h.options, h'.options]
  rw [parse, parse, run_eq, run_eq, h.firstGeneration_eq_of_agreeOn h' hagree, hsearch]

/-- The sources that exclude others leave letters to the dictionary. -/
theorem finds_of_letter (h : z.IsTurkish index options) {beginning : Word}
    (hbegins : beginning <+: word) {c : Char} (hc : c ∈ beginning)
    (hletter : Text.isAlphanumeric c = true) (hdigit : c.isDigit = false) {r : Root}
    (hr : r ∈ index.get beginning) : z.Finds word beginning r := by
  have hne : beginning ≠ [] := List.ne_nil_of_mem hc
  refine ⟨hne, hbegins, ?_, ?_⟩
  · rw [h.source]
    exact SourceOptions.accepts_chain_of_ne_nil hne
  · rw [h.source, SourceOptions.roots_chain,
      if_pos (SourceOptions.asksDictionary_of_letter hc hletter hdigit)]
    exact List.mem_append_right _ hr

end IsTurkish

/-- With other sources the analyser finds the same for the word, or fails in the same way. -/
def SameWith (index : RootIndex) (options : Options) (word : Word) (sources : SourceOptions) :
    Prop :=
  ∃ z z', ofIndex index options = .ok z ∧ ofIndex index { options with sources } = .ok z' ∧
    z.parse word = z'.parse word

theorem sameWith_of_agreeOn (index : RootIndex)
    (hagree : options.sources.AgreeOn word sources) : SameWith index options word sources := by
  obtain ⟨z, hz⟩ := exists_isTurkish index options
  obtain ⟨z', hz'⟩ := exists_isTurkish index { options with sources }
  exact ⟨z, z', ofIndex_eq_ok_iff.mpr hz, ofIndex_eq_ok_iff.mpr hz', hz.parse_eq hz' hagree⟩

/-- Numbers make no difference for a word without digits, punctuation for one with a letter, a digit
    or a space, and proper nouns for one that does not begin with a capital. Whatever sources there
    are, a root of the dictionary that is spelled with a letter is found. -/
theorem parse_source_independent (index : RootIndex) (options : Options) (word : Word) :
    ((∀ c ∈ word, c.isDigit = false) →
      ∀ numerals, SameWith index options word { options.sources with numerals }) ∧
    ((∃ c ∈ word, Text.isAlphanumeric c = true ∨ Text.isSpace c = true) →
      ∀ punctuation, SameWith index options word { options.sources with punctuation }) ∧
    ((∀ c, word.head? = some c → Text.isUppercase c = false) →
      ∀ properNouns, SameWith index options word { options.sources with properNouns }) ∧
    ∃ z, ofIndex index options = .ok z ∧ ∀ beginning, beginning <+: word →
      ∀ c ∈ beginning, Text.isAlphanumeric c = true → c.isDigit = false →
        ∀ r ∈ index.get beginning, z.Finds word beginning r := by
  refine ⟨fun hdigits numerals => ?_, fun ⟨c, hc, hplain⟩ punctuation => ?_,
    fun hsmall properNouns => ?_, ?_⟩
  · refine sameWith_of_agreeOn index ⟨fun hany => ?_, fun _ => rfl, fun _ => rfl⟩
    obtain ⟨c, hc, hdigit⟩ := List.any_eq_true.mp hany
    rw [hdigits c hc] at hdigit
    cases hdigit
  · refine sameWith_of_agreeOn index ⟨fun _ => rfl, fun hall => ?_, fun _ => rfl⟩
    have hmark := List.all_eq_true.mp hall c hc
    rcases hplain with h | h <;> simp [h] at hmark
  · refine sameWith_of_agreeOn index ⟨fun _ => rfl, fun _ => rfl, fun hcapital => ?_⟩
    obtain ⟨c, hc, hupper⟩ := (Option.any_eq_true ..).mp hcapital
    rw [hsmall c hc] at hupper
    cases hupper
  · obtain ⟨z, hz⟩ := exists_isTurkish index options
    exact ⟨z, ofIndex_eq_ok_iff.mpr hz, fun beginning hbegins c hc hletter hdigit r =>
      hz.finds_of_letter hbegins hc hletter hdigit⟩

/-- The noun `ev`. -/
def evNoun : Root :=
  .coined "ev".toList { citation := "ev".toList, lemmaRoot := "ev".toList, pos := .noun }

/-- The plural of `ev`, with and without each of the sources. -/
theorem parse_source_independent_evler :
    SameWith (.ofRoots [evNoun]) {} "evler".toList { numerals := false } ∧
      SameWith (.ofRoots [evNoun]) {} "evler".toList { punctuation := false } ∧
      SameWith (.ofRoots [evNoun]) {} "evler".toList { properNouns := false } ∧
      ∃ z, ofIndex (.ofRoots [evNoun]) {} = .ok z ∧ z.Finds "evler".toList "ev".toList evNoun := by
  have hmem : evNoun ∈ (RootIndex.ofRoots [evNoun]).get "ev".toList :=
    RootIndex.mem_get_ofRoots_iff.mpr ⟨List.mem_singleton.mpr rfl, rfl⟩
  have hdigits : ("evler".toList.all fun c => !c.isDigit) = true := by decide
  obtain ⟨hnumerals, hpunctuation, hproperNouns, z, hz, hfinds⟩ :=
    parse_source_independent (.ofRoots [evNoun]) {} "evler".toList
  refine ⟨hnumerals (fun c hc => by simpa using List.all_eq_true.mp hdigits c hc) false,
    hpunctuation ⟨'e', by decide, by decide⟩ false, hproperNouns ?_ false, z, hz, ?_⟩
  · rintro c ⟨⟩
    decide
  · exact hfinds _ (by decide) 'e' (by decide) (by decide) (by decide) evNoun hmem

end Analyzer

end TurkishMorphology
