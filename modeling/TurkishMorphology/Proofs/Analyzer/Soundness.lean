import TurkishMorphology.Proofs.Analysis.FixedPath
import TurkishMorphology.Proofs.Analysis.Forcing
import TurkishMorphology.Proofs.Analyzer.Evaluation
import TurkishMorphology.Proofs.Lexicon.RootSource
/-!
# Analyses read their words

Whatever an analyser over a dictionary finds for a word is a reading of the word: the root and the
texts of the steps spell it, the steps form a path of states to a terminal one, and all steps but
those of a fixed path follow the grammar in the context of the steps before them.

## Main definitions

- `Analyzer.Supplies` — the steps that a root brings along
- `Analyzer.Grows` — analyses on their way to a reading
- `Analyzer.IsReading` — readings

## Main statements

- `Analyzer.IsTurkish.derives_of_reaches` — what the search comes across stems from a seed by
  steps along the grammar
- `Analyzer.isReading_of_mem_parse` — what is found for a word is a reading of it

## Design notes

Four kinds of steps make up an analysis: those of the paradigm, forced ones, those of fixed paths,
and none. The first two are steps along the grammar, so one lemma is enough for both.
-/

namespace TurkishMorphology

namespace Analyzer

variable {z : Analyzer} {word : Word} {a b : Analysis} {index : RootIndex} {options : Options}

/-- The steps that a root brings along: those of one of its fixed paths, or none if it has no
    fixed paths. -/
def Supplies (z : Analyzer) (root : Root) (supplied : List Step) : Prop :=
  if z.fixedPaths.has root then ∃ path ∈ z.fixedPaths.get root, path.steps = supplied
  else supplied = []

/-- After the steps that the root brings along, each step follows the grammar in the context that
    the steps before it lead to. -/
def Follows (z : Analyzer) (word : Word) (a : Analysis) : Prop :=
  ∃ supplied taken, a.steps = supplied ++ taken ∧ z.Supplies a.root supplied ∧
    Step.Each (fun before s => s.Follows z.grammar
      (Analysis.replay z.grammar a.root a.rootState (word.drop a.root.surface.length)
        (supplied ++ before)).attributes) taken

/-- The analysis reads a beginning of the word and follows the grammar. -/
structure Grows (z : Analyzer) (word : Word) (a : Analysis) : Prop where
  reads : a.Reads z.grammar word
  begins : z.grammar.rootState a.root = .ok a.rootState
  follows : z.Follows word a

/-- The analysis reads the whole word and ends in a terminal state. Its steps lead from the state of
    the root to the last one, spell what the root leaves of the word, and each of them comes from the
    grammar, in the context of those before it, or from a fixed path of the root. -/
structure IsReading (z : Analyzer) (word : Word) (a : Analysis) : Prop where
  remaining : a.remaining = []
  surface : a.surface = word
  spelled : a.root.surface ++ Step.texts a.steps = word
  begins : z.grammar.rootState a.root = .ok a.rootState
  path : Step.Path a.rootState a.steps a.state
  finished : (z.grammar.state a.state).isTerminal = true
  /-- Taking the steps again from the root leads to the same analysis. -/
  replayed : Analysis.replay z.grammar a.root a.rootState (word.drop a.root.surface.length)
    a.steps = a
  follows : z.Follows word a

theorem Grows.takes (h : z.Grows word a) (hab : a.Takes z.grammar b) : z.Grows word b := by
  obtain ⟨r, target, hstep, hallows, rfl⟩ := hab
  refine ⟨h.reads.extend hallows.input, h.begins, ?_⟩
  obtain ⟨supplied, taken, hsteps, hsupplied, heach⟩ := h.follows
  -- The context of the new step is that of the analysis, which is the replay of its own steps.
  have hcontext : Analysis.replay z.grammar a.root a.rootState
      (word.drop a.root.surface.length) (supplied ++ taken) = a := by
    rw [← hsteps]
    exact h.reads.replay_eq
  refine ⟨supplied, taken ++ [a.nextStep z.grammar r target], ?_, hsupplied, ?_⟩
  · rw [Analysis.steps_extend, hsteps, List.append_assoc]
  · refine Step.each_append_singleton.mpr ⟨heach, ?_⟩
    rw [Analysis.root_extend, Analysis.rootState_extend, hcontext]
    exact hstep

/-- A finished analysis that has read all input is a reading. -/
theorem Grows.isReading (h : z.Grows word a) (hfin : z.isFinished a = true)
    (hrem : a.remaining = []) : z.IsReading word a := by
  have hsurface : a.surface = word := by
    rw [← h.reads.word, hrem, List.append_nil]
  exact ⟨hrem, hsurface, by rw [← h.reads.trace.surface, hsurface], h.begins, h.reads.trace.path,
    hfin, h.reads.replay_eq, h.follows⟩

namespace IsTurkish

theorem takes_of_leads (h : z.IsTurkish index options) (hab : z.Leads a b) :
    a.Takes z.grammar b := by
  obtain ⟨cell, hcell, c, hc, hb⟩ := leads_iff.mp hab
  rw [h.paradigm_eq] at hcell
  obtain ⟨-, -, rfl⟩ := (Paradigm.cell?_ofGrammar_eq_some_iff h.isClosed).mp hcell
  obtain ⟨hallows, rfl⟩ := Analysis.takeContinuation_eq_ok_iff.mp hb
  exact ⟨_, _, Grammar.follows_of_mem_continuations hc, hallows, rfl⟩

theorem takes_of_reflTransGen (h : z.IsTurkish index options)
    (hab : Relation.ReflTransGen z.Leads a b) :
    Relation.ReflTransGen (Analysis.Takes z.grammar) a b :=
  Relation.ReflTransGen.mono (fun _ _ => h.takes_of_leads) _ _ hab

theorem spells (h : z.IsTurkish index options) {lexicon : LexiconOptions} {lexemes : List Lexeme}
    (hindex : RootIndex.ofLexemes lexicon lexemes = .ok index) : z.source.Spells :=
  h.source ▸ options.sources.spells_chain hindex

theorem liesAlong (h : z.IsTurkish index options) : z.forcing.LiesAlong z.grammar :=
  h.grammar ▸ Forcing.liesAlong_turkish h.forcing

/-- What the search comes across stems from a seed by steps along the grammar. -/
theorem derives_of_reaches (h : z.IsTurkish index options) (hb : z.Reaches word b) :
    ∃ beginning root, z.Finds word beginning root ∧
      ∃ a, z.Seeds word root (word.drop beginning.length) a ∧
        Relation.ReflTransGen (Analysis.Takes z.grammar) a b := by
  obtain ⟨starts, hstarts, c, hc, hcb⟩ := hb
  obtain ⟨beginning, root, hfinds, a, hseed, hac⟩ := (mem_firstGeneration_iff hstarts).mp hc
  have hforced := Forcing.takes_of_applyTo h.liesAlong hac
  exact ⟨beginning, root, hfinds, a, hseed, hforced.trans (h.takes_of_reflTransGen hcb)⟩

theorem isPathOf (h : z.IsTurkish index options) {root : Root} {path : Analysis}
    (hpath : path ∈ z.fixedPaths.get root) :
    FixedPaths.IsPathOf z.grammar index Irregular.drafts root path := by
  rw [h.grammar]
  exact FixedPaths.isPathOf_of_mem_get h.fixedPaths hpath

theorem root_eq_of_seeds (h : z.IsTurkish index options) {root : Root} {rest : Word}
    (ha : z.Seeds word root rest a) : a.root = root := by
  cases ha with
  | path _ hmem hrebase =>
    obtain ⟨-, rfl⟩ := Analysis.rebase_eq_some_iff.mp hrebase
    exact (h.isPathOf hmem).root_eq
  | root _ _ => rfl

theorem grows_of_seeds (h : z.IsTurkish index options) {root : Root} {rest : Word}
    (hword : root.surface ++ rest = word) (ha : z.Seeds word root rest a) : z.Grows word a := by
  cases ha with
  | @path path _ has hmem hrebase =>
    have hpath := h.isPathOf hmem
    have hreads := hpath.isTrace.reads_rebase hrebase
    obtain ⟨-, rfl⟩ := Analysis.rebase_eq_some_iff.mp hrebase
    obtain rfl := hpath.root_eq
    have hsupplies : z.Supplies path.root path.steps := by
      rw [Supplies, if_pos has]
      exact ⟨path, hmem, rfl⟩
    exact ⟨hreads, hpath.rootState_eq, path.steps, [], (List.append_nil _).symm, hsupplies,
      Step.each_nil⟩
  | root hnone hstate =>
    refine ⟨hword ▸ Analysis.reads_begin root _ rest, hstate, [], [], rfl, ?_, Step.each_nil⟩
    simp [Supplies, Analysis.begin, hnone]

theorem grows_of_reaches (h : z.IsTurkish index options) (hspells : z.source.Spells)
    (hb : z.Reaches word b) : z.Grows word b := by
  obtain ⟨beginning, root, ⟨-, hbegins, -, hroot⟩, a, hseed, hab⟩ := h.derives_of_reaches hb
  obtain rfl := hspells beginning word root hroot
  have hgrows := h.grows_of_seeds (List.prefix_iff_eq_append.mp hbegins) hseed
  clear hb
  induction hab with
  | refl => exact hgrows
  | tail _ hbc ih => exact ih.takes hbc

end IsTurkish

/-- Whatever an analyser over a dictionary finds for a word is a reading of it. -/
theorem isReading_of_mem_parse {lexicon : LexiconOptions} {text : Word} {results : List Analysis}
    (hz : ofDictionary lexicon options text = .ok z) (h : z.parse word = .ok results)
    (ha : a ∈ results) : z.IsReading word a := by
  obtain ⟨lexemes, -, index, hindex, hturkish⟩ := ofDictionary_eq_ok_iff.mp hz
  obtain ⟨hreaches, hfin, hrem⟩ := (mem_parse_iff hturkish.stops h).mp ha
  exact (hturkish.grows_of_reaches (hturkish.spells hindex) hreaches).isReading hfin hrem

/-- The analyser over a dictionary with the pronoun `ben`. -/
def ben : Analyzer :=
  evaluate {} {} "ben [P:Pron; A:RootChange]".toList (by decide +kernel)

/-- A pronoun form that goes on from a fixed path is a reading. -/
theorem isReading_of_mem_parse_pronoun :
    ofDictionary {} {} "ben [P:Pron; A:RootChange]".toList = .ok ben ∧
      ∃ results, ben.parse "bana".toList = .ok results ∧ results.length = 1 ∧
        ∀ a ∈ results, ben.IsReading "bana".toList a := by
  have hz : ofDictionary {} {} "ben [P:Pron; A:RootChange]".toList = .ok ben :=
    ofDictionary_evaluate _
  obtain ⟨results, hparse, hlength⟩ := exists_of_finds hz "bana".toList
    (fun results => results.length = 1) (by decide +kernel)
  exact ⟨hz, results, hparse, by simpa using hlength,
    fun a ha => isReading_of_mem_parse hz hparse ha⟩

end Analyzer

end TurkishMorphology
