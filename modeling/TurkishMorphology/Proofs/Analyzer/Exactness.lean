import TurkishMorphology.Proofs.Analyzer.Evaluation
/-!
# The search is exact

The analyses of a word over a dictionary are the complete analyses of the generations that begin
with the seeds of the word, and the ends of the complete walks from the seeds, one for each walk.
The limit to the generations has no say in what they are.

## Main definitions

- `Analyzer.FindsGenerations` — finding what is complete in all generations, in their order

## Main statements

- `Analyzer.parse_exact` — what parsing a word finds
-/

namespace TurkishMorphology

namespace Analyzer

/-- The results are the complete analyses of all generations, one generation after the other;
    there are finitely many generations with analyses in them. -/
def FindsGenerations (z : Analyzer) (seeds results : List Analysis) : Prop :=
  ∃ n, (∀ k > n, z.generationAt seeds k = []) ∧
    results = (List.range (n + 1)).flatMap fun k => z.complete (z.generationAt seeds k)

/-- Whenever parsing a word succeeds, it finds what is complete in the generations from the seeds
    of the word, which is the end of each complete walk once. With a larger limit it succeeds in
    the same way. -/
theorem parse_exact {lexicon : LexiconOptions} {options : Options} {text word : Word}
    {z : Analyzer} {results : List Analysis} (hz : ofDictionary lexicon options text = .ok z)
    (h : z.parse word = .ok results) :
    (∃ seeds, z.firstGeneration word = .ok seeds ∧ z.FindsGenerations seeds results ∧
      z.FindsWalks seeds results) ∧
    ∀ limit ≥ options.maxGenerations, ∃ z',
      ofDictionary lexicon { options with maxGenerations := limit } text = .ok z' ∧
      z'.parse word = .ok results := by
  obtain ⟨lexemes, hlexemes, index, hindex, hturkish⟩ := ofDictionary_eq_ok_iff.mp hz
  obtain ⟨seeds, hseeds, hsearch⟩ := parse_eq_ok_iff.mp h
  constructor
  · obtain ⟨n, -, hend, hfound⟩ := search_eq_ok hsearch
    exact ⟨seeds, hseeds, ⟨n, fun k hk => generationAt_eq_nil hend hk, hfound⟩,
      findsWalks_search hturkish.stops hsearch⟩
  · intro limit hlimit
    refine ⟨_, ofDictionary_eq_ok_iff.mpr ⟨lexemes, hlexemes, index, hindex,
      hturkish.withLimit limit⟩, ?_⟩
    rw [hturkish.options] at hsearch
    exact parse_eq_ok_iff.mpr ⟨seeds, hseeds, search_mono hsearch hlimit⟩

/-- The analyser over a dictionary with the noun `kitap`, limited to ten generations. -/
def kitapInTen : Analyzer :=
  evaluate {} { maxGenerations := 10 } "kitap".toList (by decide +kernel)

/-- Ten generations suffice for the accusative and the possessive of a noun whose stop is
    voiced. -/
theorem parse_exact_accusative :
    ofDictionary {} { maxGenerations := 10 } "kitap".toList = .ok kitapInTen ∧
      ∃ results, kitapInTen.parse "kitabı".toList = .ok results ∧ results.length = 2 ∧
        (∃ seeds, kitapInTen.firstGeneration "kitabı".toList = .ok seeds ∧
          kitapInTen.FindsGenerations seeds results ∧ kitapInTen.FindsWalks seeds results) ∧
        ∃ z, ofDictionary {} { maxGenerations := 300 } "kitap".toList = .ok z ∧
          z.parse "kitabı".toList = .ok results := by
  have hz : ofDictionary {} { maxGenerations := 10 } "kitap".toList = .ok kitapInTen :=
    ofDictionary_evaluate _
  obtain ⟨results, hparse, hlength⟩ := exists_of_finds hz "kitabı".toList
    (fun results => results.length = 2) (by decide +kernel)
  obtain ⟨hexact, hlimits⟩ := parse_exact hz hparse
  exact ⟨hz, results, hparse, by simpa using hlength, hexact, hlimits 300 (by decide)⟩

end Analyzer

end TurkishMorphology
