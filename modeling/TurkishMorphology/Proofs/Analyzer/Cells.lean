import TurkishMorphology.Proofs.Analysis.Irregular
import TurkishMorphology.Proofs.Analysis.Place
import TurkishMorphology.Proofs.Analyzer.Soundness
/-!
# The search never leaves the paradigm

An analyser can be made over every dictionary that can be read. Every root found in a word has a
state to begin in, and every analysis that the search comes across has a place in the paradigm. So
parsing a word fails in two ways only: a forced step is refused, or analyses are still going on in
the last generation allowed.

## Main definitions

- `Analyzer.StaysInParadigm` — what it means for a word to be parsed within the paradigm

## Main statements

- `Analyzer.IsTurkish.isPlaced_of_reaches` — the analyses of the search have places
- `Analyzer.IsTurkish.parse_eq_error` — how parsing can fail
- `Analyzer.staysInParadigm_of_readAll` — every dictionary, every option and every word
-/

namespace TurkishMorphology

namespace Analyzer

variable {z : Analyzer} {word : Word} {a b : Analysis} {index : RootIndex} {options : Options}
  {lexicon : LexiconOptions} {lexemes : List Lexeme} {root : Root}

/-- Roots have states to begin in, all analyses of all generations have cells, and parsing does not
    fail for want of a state or of a cell. -/
structure StaysInParadigm (z : Analyzer) (word : Word) : Prop where
  begins : ∀ beginning, ∀ root ∈ z.source.roots beginning word,
    ∃ s, z.grammar.rootState root = .ok s
  placed : ∀ starts, z.firstGeneration word = .ok starts → ∀ n, ∀ a ∈ z.generationAt starts n,
    a.attributes ∈ Phonetics.contexts ∧
      (z.paradigm.cell? a.state a.attributes).isSome = true
  cellFound : ∀ e, z.parse word = .error e → ∀ s attributes, e.fault ≠ .cellMissing s attributes
  stateFound : ∀ e, z.parse word = .error e → ∀ error, e.fault ≠ .grammar error

/-- An analyser for Turkish can be made over every index. -/
theorem exists_isTurkish (index : RootIndex) (options : Options) :
    ∃ z : Analyzer, z.IsTurkish index options := by
  obtain ⟨fixedPaths, hpaths⟩ := FixedPaths.exists_turkish_eq_ok index
  exact ⟨⟨Turkish.grammar, .ofGrammar Turkish.grammar, options.sources.chain index,
    [Forcing.progressive], fixedPaths, options⟩, ⟨rfl, rfl, rfl, Forcing.turkish_eq, hpaths, rfl⟩⟩

namespace IsTurkish

theorem exists_rootState (h : z.IsTurkish index options) (root : Root) :
    ∃ s, z.grammar.rootState root = .ok s := by
  obtain ⟨s, -, hs⟩ := Turkish.exists_rootState root
  exact ⟨s, h.grammar ▸ hs⟩

/-- The seeds of a word can always be found. -/
theorem exists_seeds_eq_ok (h : z.IsTurkish index options) (word : Word) :
    ∃ as, z.seeds word = .ok as := by
  have hof : ∀ root rest, ∃ as, z.seedsOf word root rest = .ok as := by
    intro root rest
    obtain ⟨s, hs⟩ := h.exists_rootState root
    unfold seedsOf
    rw [hs]
    split <;> exact ⟨_, rfl⟩
  have hat : ∀ beginning, ∃ as, z.seedsAt word beginning = .ok as := by
    intro beginning
    unfold seedsAt
    split
    · obtain ⟨ass, hass⟩ := Except.exists_mapM_eq_ok fun root (_ : root ∈ z.source.roots _ _) =>
        hof root (word.drop beginning.length)
      exact ⟨_, Except.bind_eq_ok_iff.mpr ⟨ass, hass, rfl⟩⟩
    · exact ⟨[], rfl⟩
  obtain ⟨ass, hass⟩ := Except.exists_mapM_eq_ok fun beginning (_ : beginning ∈ beginnings word) =>
    hat beginning
  exact ⟨ass.flatten, Except.bind_eq_ok_iff.mpr ⟨ass, hass, rfl⟩⟩

theorem hasContext (h : z.IsTurkish index options)
    (hindex : RootIndex.ofLexemes lexicon lexemes = .ok index) {beginning : Word}
    (hfinds : z.Finds word beginning root) : root.HasContext := by
  obtain ⟨hne, -, -, hroot⟩ := hfinds
  rw [h.source] at hroot
  exact SourceOptions.hasContext_of_mem_roots hindex hne hroot

theorem isPlaced_of_seeds (h : z.IsTurkish index options) (hroot : root.HasContext) {rest : Word}
    (ha : z.Seeds word root rest a) : a.IsPlaced z.grammar := by
  have hstates : ∀ s, z.grammar.rootState root = .ok s → s ∈ z.grammar.stateIds := by
    rw [h.grammar]
    exact fun s => Turkish.rootState_mem_stateIds
  cases ha with
  | path _ hmem hrebase => exact ((h.isPathOf hmem).isPlaced h.namesStates hroot hstates).rebase hrebase
  | root _ hstate => exact .begin hroot (hstates _ hstate) rest

/-- Whatever the search comes across has a place in the paradigm. -/
theorem isPlaced_of_reaches (h : z.IsTurkish index options)
    (hindex : RootIndex.ofLexemes lexicon lexemes = .ok index) (hb : z.Reaches word b) :
    b.IsPlaced z.grammar := by
  obtain ⟨beginning, root, hfinds, a, hseed, hab⟩ := h.derives_of_reaches hb
  exact (h.isPlaced_of_seeds (h.hasContext hindex hfinds) hseed).reflTransGen h.isClosed hab

theorem isPlaced_of_mem_generationAt (h : z.IsTurkish index options)
    (hindex : RootIndex.ofLexemes lexicon lexemes = .ok index) {starts : List Analysis}
    (hstarts : z.firstGeneration word = .ok starts) {n : Nat} (ha : a ∈ z.generationAt starts n) :
    a.IsPlaced z.grammar :=
  h.isPlaced_of_reaches hindex ⟨starts, hstarts, mem_generationAt ha⟩

theorem isSome_cell? (h : z.IsTurkish index options) (ha : a.IsPlaced z.grammar) :
    (z.paradigm.cell? a.state a.attributes).isSome = true := by
  rw [h.paradigm_eq,
    (Paradigm.cell?_ofGrammar_eq_some_iff h.isClosed).mpr ⟨ha.state, ha.attributes, rfl⟩]
  rfl

/-- Parsing fails where a forced step of a seed is refused, or where analyses are still going on in
    the last generation allowed, and in no other way. -/
theorem parse_eq_error (h : z.IsTurkish index options)
    (hindex : RootIndex.ofLexemes lexicon lexemes = .ok index) {e : AnalysisError}
    (he : z.parse word = .error e) :
    (z.firstGeneration word = .error e.fault ∧
      ∃ suffix refusal, e.fault = .forcedStepRefused suffix refusal) ∨
    ∃ starts, z.firstGeneration word = .ok starts ∧
      z.unfinished (z.generationAt starts options.maxGenerations) ≠ [] ∧
      ∃ count, e.fault = .generationsExceeded count options.maxGenerations := by
  obtain ⟨fault, hfault, rfl⟩ := Except.mapError_eq_error_iff.mp he
  rw [run_eq] at hfault
  rcases Except.bind_eq_error_iff.mp hfault with hfirst | ⟨starts, hstarts, hsearch⟩
  · refine .inl ⟨hfirst, ?_⟩
    obtain ⟨seeds, hseeds⟩ := h.exists_seeds_eq_ok word
    rw [firstGeneration, hseeds] at hfirst
    exact (Forcing.apply_eq_error hfirst).1
  · obtain ⟨hlive, hexceeded⟩ := search_eq_error hsearch fun n a ha =>
      h.isSome_cell? (h.isPlaced_of_mem_generationAt hindex hstarts ha)
    rw [h.options] at hlive hexceeded
    exact .inr ⟨starts, hstarts, hlive, _, hexceeded⟩

theorem staysInParadigm (h : z.IsTurkish index options)
    (hindex : RootIndex.ofLexemes lexicon lexemes = .ok index) (word : Word) :
    z.StaysInParadigm word where
  begins _ root _ := h.exists_rootState root
  placed starts hstarts n a ha := by
    have hplaced := h.isPlaced_of_mem_generationAt hindex hstarts ha
    exact ⟨hplaced.attributes, h.isSome_cell? hplaced⟩
  cellFound e he s attributes hfault := by
    rcases h.parse_eq_error hindex he with ⟨-, suffix, refusal, hother⟩ | ⟨_, -, -, count, hother⟩
    all_goals
      rw [hother] at hfault
      cases hfault
  stateFound e he error hfault := by
    rcases h.parse_eq_error hindex he with ⟨-, suffix, refusal, hother⟩ | ⟨_, -, -, count, hother⟩
    all_goals
      rw [hother] at hfault
      cases hfault

end IsTurkish

/-- Over every dictionary that can be read there is an analyser, with any options, and it parses
    every word within the paradigm. -/
theorem staysInParadigm_of_readAll (options : Options) {text : Word}
    (hlexemes : Entry.readAll text = .ok lexemes)
    (hindex : RootIndex.ofLexemes lexicon lexemes = .ok index) :
    ∃ z, ofDictionary lexicon options text = .ok z ∧ ∀ word, z.StaysInParadigm word := by
  obtain ⟨z, hz⟩ := exists_isTurkish index options
  exact ⟨z, ofDictionary_eq_ok_iff.mpr ⟨lexemes, hlexemes, index, hindex, hz⟩,
    hz.staysInParadigm hindex⟩

/-- The analyser over a dictionary with the noun `saat`, which takes front vowels. -/
def saat : Analyzer :=
  evaluate {} {} "saat [A:InverseHarmony]".toList (by decide +kernel)

/-- A noun with inverse harmony, whose attributes are recomputed from the surface after its first
    suffix. -/
theorem staysInParadigm_of_readAll_inverse :
    ∃ lexemes index, Entry.readAll "saat [A:InverseHarmony]".toList = .ok lexemes ∧
      RootIndex.ofLexemes {} lexemes = .ok index ∧
      (∃ z, ofDictionary {} {} "saat [A:InverseHarmony]".toList = .ok z ∧
        ∀ word, z.StaysInParadigm word) ∧
      ∃ results, saat.parse "saatlerim".toList = .ok results ∧ results.length = 2 := by
  have hz : ofDictionary {} {} "saat [A:InverseHarmony]".toList = .ok saat :=
    ofDictionary_evaluate _
  obtain ⟨lexemes, hlexemes, index, hindex, -⟩ := ofDictionary_eq_ok_iff.mp hz
  obtain ⟨results, hparse, hlength⟩ := exists_of_finds hz "saatlerim".toList
    (fun results => results.length = 2) (by decide +kernel)
  exact ⟨lexemes, index, hlexemes, hindex, staysInParadigm_of_readAll {} hlexemes hindex,
    results, hparse, by simpa using hlength⟩

end Analyzer

end TurkishMorphology
