import TurkishMorphology.Proofs.Analysis.UnvoicedStop
import TurkishMorphology.Proofs.Analyzer.Voicing
/-!
# Stops that stay voiceless in what an analyser finds

In whatever an analyser finds for a word, a vowel stands after a voiceless stop in two cases only,
whether the step that adds it is one of the paradigm, a forced one or one of a fixed path. So a root
that does not keep its stops never has a vowel added to an unvoiced one. A suffix that makes a
nominal has one added where the word becomes a verb without a sound, as in `kitaplıkım`, and nowhere
else.

## Main statements

- `Analyzer.IsTurkish.voicesStops_of_reaches` — what the search comes across voices stops
- `Analyzer.leavesStop_of_mem_parse` — when a vowel follows an unvoiced stop
- `Analyzer.exists_nominal_suffix_unvoiced` — it does so after a suffix that makes a noun
-/

namespace TurkishMorphology

namespace Step

variable {g : Grammar} {root : Root} {before after silent : List Step} {s t : Step}

theorem isBlank_of_texts_eq_nil {steps : List Step} (h : texts steps = []) :
    ∀ s ∈ steps, s.isBlank = true := by
  intro s hs
  have hnil : s.realization.text = [] := List.flatMap_eq_nil_iff.mp h s hs
  rw [isBlank, Realization.isBlank, hnil]
  rfl

/-- A root is not followed by a vowel if it ends in an unvoiced stop that it does not keep. -/
theorem LeavesStop.has_noVoicing (h : LeavesStop g root before t) (htexts : texts before = []) :
    root.lexeme.has .noVoicing = true := by
  cases h with
  | root _ keeps => exact keeps
  | verb spoken _ _ =>
    rw [List.all_eq_true.mpr (isBlank_of_texts_eq_nil htexts)] at spoken
    cases spoken

/-- A visible step that leads to no verb is followed by a vowel after an unvoiced stop only if steps
    without a sound lead on to a verb. -/
theorem LeavesStop.of_nominal (h : LeavesStop g root (before ++ s :: silent) t)
    (hspoken : s.isBlank = false) (hpos : (g.state s.target).pos ≠ .verb)
    (hnext : silent = [] → t.source = s.target) :
    silent ≠ [] ∧ (g.state t.source).pos = .verb := by
  cases h with
  | root blank _ =>
    rw [List.all_append, List.all_cons, hspoken] at blank
    simp at blank
  | verb _ pos _ =>
    refine ⟨fun hnil => ?_, pos⟩
    rw [hnext hnil] at pos
    exact hpos pos

end Step

namespace Analyzer

variable {z : Analyzer} {word : Word} {a b : Analysis} {index : RootIndex} {options : Options}
  {lexicon : LexiconOptions} {lexemes : List Lexeme}

namespace IsTurkish

theorem voicesStops_of_seeds (h : z.IsTurkish index options)
    (hindex : RootIndex.ofLexemes lexicon lexemes = .ok index) {root : Root} {rest : Word}
    (ha : z.Seeds word root rest a) : a.VoicesStops z.grammar := by
  cases ha with
  | path _ hmem hrebase =>
    obtain ⟨-, rfl⟩ := Analysis.rebase_eq_some_iff.mp hrebase
    have hpath := h.isPathOf hmem
    rw [h.grammar] at hpath ⊢
    exact (hpath.voicesStops hindex).withRemaining _
  | root _ _ => exact Analysis.voicesStops_begin root _ rest

theorem voicesStops_of_reaches (h : z.IsTurkish index options)
    (hindex : RootIndex.ofLexemes lexicon lexemes = .ok index) (hb : z.Reaches word b) :
    b.VoicesStops z.grammar := by
  obtain ⟨beginning, root, -, a, hseed, hab⟩ := h.derives_of_reaches hb
  exact (h.voicesStops_of_seeds hindex hseed).reflTransGen hab

end IsTurkish

/-- In whatever an analyser over a dictionary finds for a word, a step adds a vowel right after a
    voiceless stop only if the root keeps its stops and nothing visible was added to it, or if
    something was and the step leaves a verb that is about to be derived from or that a blank step
    led to. So no vowel is added to an unvoiced stop of a root that does not keep its stops, and to
    one of a suffix that makes a nominal only where blank steps lead from it to a verb. -/
theorem leavesStop_of_mem_parse {text : Word} {results : List Analysis}
    (hz : ofDictionary lexicon options text = .ok z) (h : z.parse word = .ok results)
    (ha : a ∈ results) :
    (∀ before t after, a.steps = before ++ t :: after →
      t.addsVowelToStop (a.root.surface ++ Step.texts before) = true →
        Step.LeavesStop z.grammar a.root before t) ∧
    (∀ before t after, a.steps = before ++ t :: after → Step.texts before = [] →
      a.root.lexeme.has .noVoicing = false → t.addsVowelToStop a.root.surface = false) ∧
    ∀ before s silent t after, a.steps = before ++ s :: silent ++ t :: after →
      s.isBlank = false → Step.texts silent = [] → (z.grammar.state s.target).pos ≠ .verb →
      t.addsVowelToStop (a.root.surface ++ Step.texts (before ++ [s])) = true →
        silent ≠ [] ∧ (∀ u ∈ silent, u.isBlank = true) ∧
          (z.grammar.state t.source).pos = .verb := by
  obtain ⟨lexemes, -, index, hindex, hturkish⟩ := ofDictionary_eq_ok_iff.mp hz
  obtain ⟨hreaches, -⟩ := (mem_parse_iff hturkish.stops h).mp ha
  have hvoices := hturkish.voicesStops_of_reaches hindex hreaches
  refine ⟨hvoices.each, ?_, ?_⟩
  · intro before t after hsteps htexts hkeeps
    rw [← Bool.not_eq_true]
    intro hstop
    have hleaves := hvoices.each before t after hsteps (by rwa [htexts, List.append_nil])
    rw [hleaves.has_noVoicing htexts] at hkeeps
    cases hkeeps
  · intro before s silent t after hsteps hspoken htexts hpos hstop
    have hsame : Step.texts (before ++ s :: silent) = Step.texts (before ++ [s]) := by
      rw [List.append_cons, Step.texts_append, htexts, List.append_nil]
    have hnext : silent = [] → t.source = s.target := by
      rintro rfl
      have hpath := hvoices.trace.path
      rw [hsteps, List.append_assoc, Step.path_append] at hpath
      obtain ⟨middle, -, -, hsource, -⟩ := hpath
      exact hsource
    obtain ⟨hsilent, hverb⟩ := (hvoices.each _ t after hsteps (hsame ▸ hstop)).of_nominal hspoken
      hpos hnext
    exact ⟨hsilent, Step.isBlank_of_texts_eq_nil htexts, hverb⟩

/-- The analyser over a dictionary with a noun that keeps its stop. -/
def atNoun : Analyzer := evaluate {} {} "at [A:NoVoicing]".toList (by decide +kernel)

/-- In `atım` the stop of the root stands before a vowel, as the root keeps it. -/
theorem leavesStop_of_mem_parse_at :
    ofDictionary {} {} "at [A:NoVoicing]".toList = .ok atNoun ∧
      ∃ results, atNoun.parse "atım".toList = .ok results ∧
        ∃ a ∈ results, ∃ before t after, a.steps = before ++ t :: after ∧
          t.addsVowelToStop (a.root.surface ++ Step.texts before) = true ∧
          Step.LeavesStop atNoun.grammar a.root before t := by
  have hz : ofDictionary {} {} "at [A:NoVoicing]".toList = .ok atNoun := ofDictionary_evaluate _
  obtain ⟨results, hparse, hfound⟩ := exists_of_finds hz "atım".toList
    (fun results => results.any fun a => (List.range a.steps.length).any fun i =>
      (a.steps[i]?).any fun t =>
        t.addsVowelToStop (a.root.surface ++ Step.texts (a.steps.take i))) (by decide +kernel)
  obtain ⟨a, ha, hfound⟩ := List.any_eq_true.mp hfound
  obtain ⟨i, -, hfound⟩ := List.any_eq_true.mp hfound
  obtain ⟨t, ht, hstop⟩ := (Option.any_eq_true ..).mp hfound
  obtain ⟨hi, rfl⟩ := List.getElem?_eq_some_iff.mp ht
  have hsteps : a.steps = a.steps.take i ++ a.steps[i] :: a.steps.drop (i + 1) := by simp
  exact ⟨hz, results, hparse, a, ha, _, _, _, hsteps, hstop,
    (leavesStop_of_mem_parse hz hparse ha).1 _ _ _ hsteps hstop⟩

/-- In `kitaplıkım`, I am a bookcase, a vowel follows the suffix `lık` with its stop unvoiced,
    although the suffix makes a noun. The steps in between make a verb of it without a sound. -/
theorem exists_nominal_suffix_unvoiced :
    ofDictionary {} {} "kitap".toList = .ok kitap ∧
      ∃ results, kitap.parse "kitaplıkım".toList = .ok results ∧
        ∃ a ∈ results, a.root.lexeme.has .noVoicing = false ∧
          ∃ before s silent t after, a.steps = before ++ s :: silent ++ t :: after ∧
            s.realization.text = "lık".toList ∧ Step.texts silent = [] ∧
            (kitap.grammar.state s.target).pos = .noun ∧
            t.realization.text = "ım".toList ∧
            t.addsVowelToStop (a.root.surface ++ Step.texts (before ++ [s])) = true := by
  have hz : ofDictionary {} {} "kitap".toList = .ok kitap := ofDictionary_evaluate _
  obtain ⟨results, hparse, hfound⟩ := exists_of_finds hz "kitaplıkım".toList
    (fun results => results.any fun a => !a.root.lexeme.has .noVoicing
      && (a.steps[3]?).any fun s => (a.steps[10]?).any fun t =>
        s.realization.text = "lık".toList ∧ Step.texts ((a.steps.drop 4).take 6) = [] ∧
          (kitap.grammar.state s.target).pos = .noun ∧ t.realization.text = "ım".toList ∧
          t.addsVowelToStop (a.root.surface ++ Step.texts (a.steps.take 3 ++ [s])) = true)
    (by decide +kernel)
  obtain ⟨a, ha, hfound⟩ := List.any_eq_true.mp hfound
  rw [Bool.and_eq_true, Bool.not_eq_true'] at hfound
  obtain ⟨hkeeps, hfound⟩ := hfound
  obtain ⟨s, hs, hfound⟩ := (Option.any_eq_true ..).mp hfound
  obtain ⟨t, ht, hfound⟩ := (Option.any_eq_true ..).mp hfound
  obtain ⟨hlik, hsilent, hpos, him, hstop⟩ := of_decide_eq_true hfound
  obtain ⟨h3, rfl⟩ := List.getElem?_eq_some_iff.mp hs
  obtain ⟨h10, rfl⟩ := List.getElem?_eq_some_iff.mp ht
  have hrest : a.steps.drop 4 = (a.steps.drop 4).take 6 ++ a.steps[10] :: a.steps.drop 11 := by
    rw [← List.drop_eq_getElem_cons h10]
    simpa using (List.take_append_drop 6 (a.steps.drop 4)).symm
  have hsteps : a.steps = a.steps.take 3 ++ a.steps[3] :: (a.steps.drop 4).take 6 ++
      a.steps[10] :: a.steps.drop 11 := by
    rw [List.append_assoc, List.cons_append, ← hrest, ← List.drop_eq_getElem_cons h3,
      List.take_append_drop]
  exact ⟨hz, results, hparse, a, ha, hkeeps, _, _, _, _, _, hsteps, hlik, hsilent, hpos, him,
    hstop⟩

end Analyzer

end TurkishMorphology
