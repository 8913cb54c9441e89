import TurkishMorphology.Proofs.Analyzer.Parse
import TurkishMorphology.Proofs.Grammar.Exploration
import TurkishMorphology.Proofs.Lexicon.RootIndex
/-!
# Analysers over a dictionary

What is known of an analyser that was made for a dictionary: it has the grammar of Turkish and all
that is made from it, and the roots of the lexemes in the dictionary.

## Main definitions

- `Analyzer.IsTurkish` — what an analyser for Turkish consists of

## Main statements

- `Analyzer.ofDictionary_eq_ok_iff` — analysers over a dictionary
- `Analyzer.IsTurkish.stops` — finished analyses of Turkish words do not go on
-/

namespace TurkishMorphology

namespace Analyzer

variable {z : Analyzer}

/-- What an analyser for Turkish with the roots of an index consists of. -/
structure IsTurkish (index : RootIndex) (options : Options) (z : Analyzer) : Prop where
  grammar : z.grammar = Turkish.grammar
  paradigm : z.paradigm = .ofGrammar Turkish.grammar
  source : z.source = options.sources.chain index
  forcing : Forcing.turkish Turkish.grammar = .ok z.forcing
  fixedPaths : FixedPaths.turkish Turkish.grammar index = .ok z.fixedPaths
  options : z.options = options

theorem ofIndex_eq_ok_iff {index : RootIndex} {options : Options} :
    ofIndex index options = .ok z ↔ z.IsTurkish index options := by
  simp only [ofIndex, Except.bind_eq_ok_iff, pure, Except.pure, Except.ok.injEq]
  constructor
  · rintro ⟨forcing, hforcing, fixedPaths, hpaths, rfl⟩
    exact ⟨rfl, rfl, rfl, hforcing, hpaths, rfl⟩
  · rintro ⟨hg, hp, hs, hforcing, hpaths, ho⟩
    refine ⟨z.forcing, hforcing, z.fixedPaths, hpaths, ?_⟩
    rw [← hs, ← hg, ← ho, show Turkish.paradigm = z.paradigm from hp.symm]

/-- An analyser over a dictionary is one for Turkish with the roots of its lexemes. -/
theorem ofDictionary_eq_ok_iff {lexicon : LexiconOptions} {options : Options} {text : Word} :
    ofDictionary lexicon options text = .ok z ↔
      ∃ lexemes, Entry.readAll text = .ok lexemes ∧
        ∃ index, RootIndex.ofLexemes lexicon lexemes = .ok index ∧ z.IsTurkish index options := by
  simp only [ofDictionary, Except.bind_eq_ok_iff, Except.mapError_eq_ok_iff, ofIndex_eq_ok_iff]

theorem stops_of_restsAtTerminals (hparadigm : z.paradigm = .ofGrammar z.grammar)
    (hg : z.grammar.IsClosed) (hrests : z.grammar.RestsAtTerminals) : z.Stops := by
  intro a hfin
  unfold accepted
  rw [hparadigm]
  cases hcell : (Paradigm.ofGrammar z.grammar).cell? a.state a.attributes with
  | none => rfl
  | some cell =>
    obtain ⟨-, -, rfl⟩ := (Paradigm.cell?_ofGrammar_eq_some_iff hg).mp hcell
    simp [hrests.continuations_eq_nil hfin]

namespace IsTurkish

variable {index : RootIndex} {options : Options}

theorem paradigm_eq (h : z.IsTurkish index options) : z.paradigm = .ofGrammar z.grammar := by
  rw [h.grammar, h.paradigm]

theorem isClosed (h : z.IsTurkish index options) : z.grammar.IsClosed :=
  h.grammar ▸ Turkish.isClosed

theorem namesStates (h : z.IsTurkish index options) : z.grammar.NamesStates :=
  h.grammar ▸ Turkish.namesStates

theorem stops (h : z.IsTurkish index options) : z.Stops := by
  refine stops_of_restsAtTerminals h.paradigm_eq h.isClosed ?_
  rw [h.grammar]
  exact Turkish.restsAtTerminals

/-- The same analyser with another limit to its generations. -/
theorem withLimit (h : z.IsTurkish index options) (limit : Nat) :
    ({ z with options := { options with maxGenerations := limit } } : Analyzer).IsTurkish index
      { options with maxGenerations := limit } :=
  ⟨h.grammar, h.paradigm, h.source, h.forcing, h.fixedPaths, rfl⟩

end IsTurkish

end Analyzer

end TurkishMorphology
