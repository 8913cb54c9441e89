import TurkishMorphology.Lexicon.Sample
import TurkishMorphology.Proofs.Analyzer.ForcedSteps
import TurkishMorphology.Proofs.Analyzer.Termination
/-!
# Words that are never given up

An analyser has two reasons to give a word up: a forced step that is refused, and the limit to the
generations. With ten generations for each character the limit is never reached, and a dictionary
whose altered roots all bear the progressive never has a forced step refused. The sample dictionary
is of that kind, so its analysers have an answer to every string.

## Main definitions

- `Root.bearsProgressive` — nothing but the input can be against the progressive where it is forced

## Main statements

- `Analyzer.IsTurkish.exists_parse_eq_ok` — when no word is given up
- `Analyzer.sample_total` — no word is given up with the sample dictionary
-/

namespace TurkishMorphology

/-- Whether nothing but the input can be against the progressive, where it is forced on the root. -/
def Root.bearsProgressive (r : Root) : Bool :=
  r.isUnaltered || !r.lexeme.has .progressiveVowelDrop || r.progressiveRefusal?.isNone

namespace Analyzer

variable {z : Analyzer} {word : Word} {index : RootIndex} {options : Options}
  {lexicon : LexiconOptions} {lexemes : List Lexeme}

/-- A word is not given up if all roots of the dictionary bear the progressive and ten generations
    are allowed for each character. -/
theorem IsTurkish.exists_parse_eq_ok (h : z.IsTurkish index options)
    (hindex : RootIndex.ofLexemes lexicon lexemes = .ok index)
    (hbears : ∀ spelling, ∀ r ∈ index.get spelling, r.bearsProgressive = true)
    (hlimit : 10 * word.length ≤ options.maxGenerations) :
    ∃ results, z.parse word = .ok results := by
  cases hparse : z.parse word with
  | ok results => exact ⟨results, rfl⟩
  | error e =>
    exfalso
    rcases h.parse_eq_error hindex hparse with ⟨hfirst, -⟩ | ⟨starts, hstarts, hlive, -⟩
    · obtain ⟨root, refusal, hforces, hrefusal, -⟩ :=
        h.exists_of_firstGeneration_eq_error hindex hfirst
      obtain ⟨beginning, -, -, -, hroot⟩ := hforces.finds
      rw [h.source] at hroot
      have hroot := hbears beginning root (SourceOptions.mem_get_of_drops hroot hforces.drops)
      simp [Root.bearsProgressive, hforces.altered, hforces.drops, hrefusal] at hroot
    · exact hlive (h.unfinished_generationAt_eq_nil hindex hstarts hlimit)

end Analyzer

/-- The roots of the sample dictionary can be made with any options, and they all bear the
    progressive. -/
theorem Sample.exists_roots (lexicon : LexiconOptions) :
    ∃ lexemes rss, Sample.lexemes = .ok lexemes ∧
      lexemes.mapM (RootIndex.rootsOf lexicon) = .ok rss ∧
      ∀ r ∈ rss.flatten, r.bearsProgressive = true := by
  have hall : Sample.lexemes.toOption.any (fun lexemes => [true, false].all fun free =>
      (lexemes.mapM (RootIndex.rootsOf ⟨free⟩)).toOption.any fun rss =>
        rss.flatten.all Root.bearsProgressive) = true := by decide +kernel
  obtain ⟨lexemes, hlexemes, hall⟩ := (Option.any_eq_true ..).mp hall
  have hfree : lexicon.circumflexFree ∈ [true, false] := by
    cases lexicon.circumflexFree <;> decide
  obtain ⟨rss, hrss, hbears⟩ := (Option.any_eq_true ..).mp (List.all_eq_true.mp hall _ hfree)
  exact ⟨lexemes, rss, Except.toOption_eq_some_iff.mp hlexemes, Except.toOption_eq_some_iff.mp hrss,
    List.all_eq_true.mp hbears⟩

namespace Analyzer

/-- With the sample dictionary there is an analyser for any options, and it gives no word up if ten
    generations are allowed for each of its characters. -/
theorem sample_total (lexicon : LexiconOptions) (options : Options) :
    ∃ z, sample lexicon options = .ok z ∧
      ∀ word : Word, 10 * word.length ≤ options.maxGenerations →
        ∃ results, z.parse word = .ok results := by
  obtain ⟨lexemes, rss, hlexemes, hrss, hbears⟩ := Sample.exists_roots lexicon
  have hindex : RootIndex.ofLexemes lexicon lexemes = .ok (.ofRoots rss.flatten) :=
    Except.bind_eq_ok_iff.mpr ⟨rss, hrss, rfl⟩
  obtain ⟨z, hz⟩ := exists_isTurkish (.ofRoots rss.flatten) options
  refine ⟨z, ?_, fun word hlimit => hz.exists_parse_eq_ok hindex (fun spelling r hr => ?_) hlimit⟩
  · have hsample : Sample.index lexicon = .ok (.ofRoots rss.flatten) := by
      rw [Sample.index, hlexemes]
      exact hindex
    exact Except.bind_eq_ok_iff.mpr ⟨_, Except.mapError_eq_ok_iff.mpr hsample,
      Except.mapError_eq_ok_iff.mpr (ofIndex_eq_ok_iff.mpr hz)⟩
  · exact hbears r (RootIndex.mem_get_ofRoots_iff.mp hr).1

/-- A word with a root on which the progressive is forced, and characters of no word at all. -/
theorem sample_total_ariyor :
    ∃ z, sample { circumflexFree := true } {} = .ok z ∧
      10 * "arıyor'ЖŞ\n".toList.length ≤ 256 ∧
      ∃ results, z.parse "arıyor'ЖŞ\n".toList = .ok results := by
  obtain ⟨z, hz, htotal⟩ := sample_total { circumflexFree := true } {}
  exact ⟨z, hz, by decide, htotal _ (by decide)⟩

end Analyzer

end TurkishMorphology
