import TurkishMorphology.Proofs.Analysis.Respelling
import TurkishMorphology.Proofs.Analyzer.Voicing
import TurkishMorphology.Proofs.Lexicon.Circumflex
import Mathlib.Data.List.Find
/-!
# Words without circumflexes

An analyser whose index holds copies of roots without circumflexes analyses a word in which the
circumflexes of the root are left out like the word with them: the copy takes the same steps.

Two kinds of roots are no part of this. Roots taken from the input have no copies; their lexemes
are made anew from what is written. And the copy of an unaltered verb root counts as altered, since
it is not spelled as the lemma root; if the verb loses its vowel before the progressive, the
progressive is forced on the copy.

## Main statements

- `Analyzer.leads_respelled` — steps of the search after a respelled root
- `Analyzer.exists_plain_of_mem_parse` — the copy takes the same steps
- `Analyzer.exists_root_without_copy` — roots of the two kinds that have no such copy

## Design notes

The analysis of the copy is the respelled analysis of the root. So the proof respells a whole run
of the search, from the seed through the forced steps and the steps of the search.
-/

namespace TurkishMorphology

namespace Forcing

/-- The steps forced on an analysis are forced on the respelled one too, if the same rules apply
    to it. -/
theorem applyTo_respelled {g : Grammar} {rules : Forcing} {a b : Analysis} {s : Word}
    (hg : g.SparesUnaltered) (h : a.Respellable s)
    (hsame : ∀ rule ∈ rules, rule.applies (a.respelled s) = rule.applies a)
    (hb : rules.applyTo g a = .ok (some b)) :
    rules.applyTo g (a.respelled s) = .ok (some (b.respelled s)) := by
  unfold applyTo at hb ⊢
  rw [List.find?_congr hsame]
  split at hb
  · cases hb
    rfl
  · exact takeSteps_respelled hg h hb

end Forcing

namespace Analyzer

variable {z : Analyzer} {word : Word} {a b : Analysis} {s : Word} {index : RootIndex}
  {options : Options} {lexemes : List Lexeme} {root : Root}

theorem leads_respelled (hg : z.grammar.SparesUnaltered) (h : a.Respellable s)
    (hab : z.Leads a b) : z.Leads (a.respelled s) (b.respelled s) := by
  obtain ⟨cell, hcell, c, hc, hb⟩ := leads_iff.mp hab
  exact leads_iff.mpr ⟨cell, hcell, c, hc, Analysis.takeContinuation_respelled hg h hb⟩

theorem reflTransGen_leads_respelled (h : z.IsTurkish index options) (ha : a.Respellable s)
    (hab : Relation.ReflTransGen z.Leads a b) :
    Relation.ReflTransGen z.Leads (a.respelled s) (b.respelled s) := by
  have hg : z.grammar.SparesUnaltered := h.grammar ▸ Turkish.sparesUnaltered
  induction hab with
  | refl => exact .refl
  | tail hac hcb ih =>
    exact ih.tail (leads_respelled hg (ha.takes (h.takes_of_reflTransGen hac)) hcb)

namespace IsTurkish

/-- Roots whose lemma root has a circumflex have no fixed paths. -/
theorem has_eq_false (h : z.IsTurkish index options)
    (hlemma : root.lexeme.lemmaRoot.any Alphabet.hasCircumflex = true) :
    z.fixedPaths.has root = false := by
  rw [← Bool.not_eq_true]
  intro hroot
  obtain ⟨path, hpath⟩ := FixedPaths.exists_mem_get_of_has h.fixedPaths hroot
  obtain ⟨d, hd, ⟨-, hconcerns⟩, -⟩ := (h.isPathOf hpath).made
  simp only [FixedPaths.concerns, decide_eq_true_eq] at hconcerns
  rw [hconcerns.1] at hlemma
  obtain ⟨c, hc, hcircumflex⟩ := List.any_eq_true.mp hlemma
  rw [Irregular.hasCircumflex_of_mem_drafts d hd c (List.mem_append_left _ hc)] at hcircumflex
  cases hcircumflex

/-- The copy of a root is found where the root is found with its circumflexes. -/
theorem finds_withoutCircumflex (h : z.IsTurkish index options)
    (hindex : RootIndex.ofLexemes { circumflexFree := true } lexemes = .ok index)
    (hroot : root ∈ index.get root.surface)
    (hcircumflex : root.surface.any Alphabet.hasCircumflex = true) (rest : Word) :
    z.Finds (root.surface.withoutCircumflex ++ rest) root.surface.withoutCircumflex
      (root.withSurface root.surface.withoutCircumflex) := by
  have hcopy := RootIndex.mem_get_withoutCircumflex hindex hroot hcircumflex
  obtain ⟨haccepts, hfound⟩ := options.sources.mem_roots_withoutCircumflex
    (root.surface.withoutCircumflex ++ rest) hcircumflex hcopy
  obtain ⟨c, hc, -⟩ := RootSource.exists_plain_vowel hcircumflex
  rw [← h.source] at haccepts hfound
  exact ⟨List.ne_nil_of_mem hc, List.prefix_append .., haccepts, hfound⟩

/-- The rules apply to the copy of a root as to the root, unless it is the unaltered root of a verb
    that loses a vowel before the progressive. -/
theorem applies_respelled (h : z.IsTurkish index options) (ha : a.Respellable s)
    (hstate : z.grammar.rootState a.root = .ok a.state)
    (hverb : ¬ (a.root.lexeme.pos = .verb ∧ a.root.lexeme.has .progressiveVowelDrop = true ∧
      a.root.isUnaltered = true)) {rule : ForcedRule} (hrule : rule ∈ z.forcing) :
    rule.applies (a.respelled s) = rule.applies a := by
  obtain ⟨hat, hcondition⟩ : rule.state = Turkish.StateName.verbRoot.id ∧
      rule.condition = Forcing.progressiveRule.condition := by
    rw [Forcing.eq_of_turkish h.forcing, List.mem_singleton] at hrule
    subst hrule
    exact ⟨rfl, rfl⟩
  unfold ForcedRule.applies
  rw [hat, hcondition]
  -- The rules are about verb roots only, so in all other states none of them applies.
  by_cases hroot : Turkish.StateName.verbRoot.id = a.state
  · rw [h.grammar, ← hroot] at hstate
    have hpos := Turkish.rootState_eq_verbRoot_iff.mp hstate
    have hsame : Forcing.progressiveRule.condition.holds (a.respelled s) =
        Forcing.progressiveRule.condition.holds a := by
      change (a.root.lexeme.has .progressiveVowelDrop && !(a.root.withSurface s).isUnaltered
        && a.steps.isEmpty) = (a.root.lexeme.has .progressiveVowelDrop && !a.root.isUnaltered
          && a.steps.isEmpty)
      rw [ha.altered]
      cases hdrop : a.root.lexeme.has .progressiveVowelDrop with
      | false => rfl
      | true =>
        have haltered : a.root.isUnaltered = false := by
          rw [← Bool.not_eq_true]
          exact fun hunaltered => hverb ⟨hpos, hdrop, hunaltered⟩
        rw [haltered]
    rw [hsame]
    rfl
  · have hroot' : ¬ Turkish.StateName.verbRoot.id = (a.respelled s).state := hroot
    simp only [hroot, hroot', false_and]

end IsTurkish

/-- The seed of a root, spelled as its copy, is the seed of the copy. -/
theorem begin_respelled (root : Root) (state : StateId) (rest : Word) :
    (Analysis.begin root state rest).respelled s =
      Analysis.begin (root.withSurface s) state rest := by
  simp [Analysis.respelled, Analysis.begin, Analysis.added, Root.withSurface]

theorem respellable_begin (state : StateId) (rest : Word)
    (hlemma : root.lexeme.lemmaRoot.any Alphabet.hasCircumflex = true) :
    (Analysis.begin root state rest).Respellable root.surface.withoutCircumflex where
  sounds := Word.soundsLike_withoutCircumflex _
  begins := by simp [Analysis.begin, Analysis.added]
  altered := by
    rw [← Bool.not_eq_true]
    intro hunaltered
    obtain ⟨c, hc, hcircumflex⟩ := List.any_eq_true.mp hlemma
    have hsame : root.surface.withoutCircumflex = root.lexeme.lemmaRoot := by
      simpa [Root.isUnaltered, Root.withSurface, Analysis.begin] using hunaltered
    rw [← hsame] at hc
    rw [Word.hasCircumflex_of_mem_withoutCircumflex hc] at hcircumflex
    cases hcircumflex

/-- Where the search comes across an analysis after a listed root with circumflexes, it comes across
    the respelled analysis in the word without them. -/
theorem IsTurkish.reaches_respelled (h : z.IsTurkish index options)
    (hindex : RootIndex.ofLexemes { circumflexFree := true } lexemes = .ok index)
    (hb : z.Reaches word b) (hcircumflex : b.root.surface.any Alphabet.hasCircumflex = true)
    (hlisted : b.root.kind = .listed)
    (hverb : ¬ (b.root.lexeme.pos = .verb ∧ b.root.lexeme.has .progressiveVowelDrop = true ∧
      b.root.isUnaltered = true)) {starts : List Analysis}
    (hstarts : z.firstGeneration
      (b.root.surface.withoutCircumflex ++ word.drop b.root.surface.length) = .ok starts) :
    z.Reaches (b.root.surface.withoutCircumflex ++ word.drop b.root.surface.length)
      (b.respelled b.root.surface.withoutCircumflex) := by
  have hg : z.grammar.SparesUnaltered := h.grammar ▸ Turkish.sparesUnaltered
  obtain ⟨_, hstarts₀, c, hc, hcb⟩ := hb
  obtain ⟨beginning, root, ⟨-, -, -, hfound⟩, a, hseed, hac⟩ :=
    (mem_firstGeneration_iff hstarts₀).mp hc
  obtain rfl := h.spells hindex beginning word root hfound
  have htakes := Forcing.takes_of_applyTo h.liesAlong hac
  have hroot : b.root = root :=
    (Analysis.root_eq_of_takes (htakes.trans (h.takes_of_reflTransGen hcb))).trans
      (h.root_eq_of_seeds hseed)
  subst hroot
  rw [h.source] at hfound
  have hget := SourceOptions.mem_get_of_listed hfound hlisted
  have hlemma := RootIndex.exists_circumflex_lemmaRoot hindex hget hcircumflex
  -- A root with fixed paths has no circumflexes, so the seed is the root alone.
  cases hseed with
  | path has _ _ =>
    rw [h.has_eq_false hlemma] at has
    cases has
  | @root state _ hstate =>
    have hresp := respellable_begin state (word.drop b.root.surface.length) hlemma
    have hforced := Forcing.applyTo_respelled hg hresp
      (fun rule hrule => h.applies_respelled hresp hstate hverb hrule) hac
    rw [begin_respelled] at hforced
    refine ⟨starts, hstarts, _, ?_, reflTransGen_leads_respelled h (hresp.takes htakes) hcb⟩
    refine (mem_firstGeneration_iff hstarts).mpr ⟨_, _,
      h.finds_withoutCircumflex hindex hget hcircumflex _, _, .root ?_ hstate, ?_⟩
    · exact h.has_eq_false hlemma
    · rw [List.drop_left]
      exact hforced

/-- Wherever a word is analysed with a listed root that has circumflexes, the word with these left
    out is analysed with the same lexeme and the same steps, unless the root is the unaltered root
    of a verb that loses a vowel before the progressive. -/
theorem exists_plain_of_mem_parse {text : Word} {results results' : List Analysis}
    (hz : ofDictionary { circumflexFree := true } options text = .ok z)
    (h : z.parse word = .ok results) (ha : a ∈ results)
    (hcircumflex : a.root.surface.any Alphabet.hasCircumflex = true)
    (hlisted : a.root.kind = .listed)
    (hverb : ¬ (a.root.lexeme.pos = .verb ∧ a.root.lexeme.has .progressiveVowelDrop = true ∧
      a.root.isUnaltered = true))
    (h' : z.parse (a.root.surface.withoutCircumflex ++ word.drop a.root.surface.length)
      = .ok results') :
    ∃ b ∈ results', b.root.lexeme = a.root.lexeme ∧ b.steps = a.steps := by
  obtain ⟨lexemes, -, index, hindex, hturkish⟩ := ofDictionary_eq_ok_iff.mp hz
  obtain ⟨hreaches, hfin, hrem⟩ := (mem_parse_iff hturkish.stops h).mp ha
  obtain ⟨starts, hstarts, -⟩ := parse_eq_ok_iff.mp h'
  have hcopy := hturkish.reaches_respelled hindex hreaches hcircumflex hlisted hverb hstarts
  exact ⟨_, (mem_parse_iff hturkish.stops h').mpr ⟨hcopy, hfin, hrem⟩, rfl, rfl⟩

/-- The analyser over a dictionary with the verb `lânetlemek`, with copies of its roots. -/
def lanetlemek : Analyzer :=
  evaluate { circumflexFree := true } {} "lânetlemek".toList (by decide +kernel)

/-- The progressive is forced on the altered root and on its copy alike. -/
theorem exists_plain_of_mem_parse_progressive :
    ofDictionary { circumflexFree := true } {} "lânetlemek".toList = .ok lanetlemek ∧
      ∃ results results', lanetlemek.parse "lânetliyor".toList = .ok results ∧
        lanetlemek.parse "lanetliyor".toList = .ok results' ∧
        ∃ a ∈ results, a.root.surface = "lânetl".toList ∧
          ∃ b ∈ results', b.root.lexeme = a.root.lexeme ∧ b.steps = a.steps := by
  have hz : ofDictionary { circumflexFree := true } {} "lânetlemek".toList = .ok lanetlemek :=
    ofDictionary_evaluate _
  obtain ⟨results, hparse, hroot⟩ := exists_of_finds hz "lânetliyor".toList
    (fun results => results.any fun a =>
      a.root.surface = "lânetl".toList && a.root.kind = .listed && !a.root.isUnaltered)
    (by decide +kernel)
  obtain ⟨results', hparse', -⟩ := exists_of_finds hz "lanetliyor".toList (fun _ => true)
    (by decide +kernel)
  obtain ⟨a, ha, ⟨hsurface, hlisted⟩, haltered⟩ : ∃ a ∈ results,
      (a.root.surface = "lânetl".toList ∧ a.root.kind = .listed) ∧
        a.root.isUnaltered = false := by
    simpa only [List.any_eq_true, Bool.and_eq_true, decide_eq_true_eq, Bool.not_eq_true']
      using hroot
  have hword : a.root.surface.withoutCircumflex ++
      "lânetliyor".toList.drop a.root.surface.length = "lanetliyor".toList := by
    rw [hsurface]
    decide +kernel
  refine ⟨hz, results, results', hparse, hparse', a, ha, hsurface, ?_⟩
  refine exists_plain_of_mem_parse hz hparse ha ?_ hlisted ?_ (hword ▸ hparse')
  · rw [hsurface]
    decide +kernel
  · rintro ⟨-, -, hunaltered⟩
    rw [haltered] at hunaltered
    cases hunaltered

/-- A proper noun that is taken from the input is a lexeme of its own in each spelling, and the copy
    of an unaltered verb root is not analysed where the root is. -/
theorem exists_root_without_copy :
    ofDictionary { circumflexFree := true } {} "lânetlemek".toList = .ok lanetlemek ∧
      (∃ results results', lanetlemek.parse "Kâzım".toList = .ok results ∧
        lanetlemek.parse "Kazım".toList = .ok results' ∧
        ∃ a ∈ results, a.root.surface = "Kâzım".toList ∧
          ∀ b ∈ results', b.root.lexeme ≠ a.root.lexeme) ∧
      ∃ results results', lanetlemek.parse "lânetledi".toList = .ok results ∧
        lanetlemek.parse "lanetledi".toList = .ok results' ∧
        ∃ a ∈ results, a.root.surface = "lânetle".toList ∧
          ∀ b ∈ results', b.root.lexeme ≠ a.root.lexeme := by
  have hz : ofDictionary { circumflexFree := true } {} "lânetlemek".toList = .ok lanetlemek :=
    ofDictionary_evaluate _
  refine ⟨hz, ?_, ?_⟩
  · obtain ⟨results, hparse, hroot⟩ := exists_of_finds hz "Kâzım".toList
      (fun results => results.any fun a =>
        a.root.surface = "Kâzım".toList && a.root.lexeme.citation = "Kâzım".toList)
      (by decide +kernel)
    obtain ⟨results', hparse', hroots⟩ := exists_of_finds hz "Kazım".toList
      (fun results => results.all fun b => b.root.lexeme.citation = "Kazım".toList)
      (by decide +kernel)
    obtain ⟨a, ha, hsurface, hcitation⟩ : ∃ a ∈ results, a.root.surface = "Kâzım".toList ∧
        a.root.lexeme.citation = "Kâzım".toList := by
      simpa only [List.any_eq_true, Bool.and_eq_true, decide_eq_true_eq] using hroot
    refine ⟨results, results', hparse, hparse', a, ha, hsurface, fun b hb hsame => ?_⟩
    have hcitation' : b.root.lexeme.citation = "Kazım".toList := by
      simpa only [decide_eq_true_eq] using List.all_eq_true.mp hroots b hb
    rw [hsame, hcitation] at hcitation'
    exact absurd hcitation' (by decide +kernel)
  · obtain ⟨results, hparse, hroot⟩ := exists_of_finds hz "lânetledi".toList
      (fun results => results.any fun a => a.root.surface = "lânetle".toList) (by decide +kernel)
    obtain ⟨results', hparse', hnone⟩ := exists_of_finds hz "lanetledi".toList List.isEmpty
      (by decide +kernel)
    obtain ⟨a, ha, hsurface⟩ : ∃ a ∈ results, a.root.surface = "lânetle".toList := by
      simpa only [List.any_eq_true, decide_eq_true_eq] using hroot
    obtain rfl := List.isEmpty_iff.mp hnone
    exact ⟨results, [], hparse, hparse', a, ha, hsurface, fun b hb => by cases hb⟩

end Analyzer

end TurkishMorphology
