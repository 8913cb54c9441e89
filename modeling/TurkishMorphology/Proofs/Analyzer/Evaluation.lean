import TurkishMorphology.Proofs.Analyzer.Dictionary
/-!
# Evaluating an analyser

What an analyser over a dictionary finds for a word can be computed in a proof, but not with the
tables that the analyser has for speed. Its index of roots is a hash table, which a proof cannot
look into, and its paradigm has thousands of cells, nearly all of them of no use for one word.
Here roots are looked for in a list, and continuations come from the grammar when they are needed.

## Main definitions

- `Analyzer.ofRootList`, `Analyzer.evaluate` — analysers that look for roots in a list
- `Analyzer.evalSearch` — the search without a paradigm
- `Analyzer.finds` — whether a word has analyses that pass a test

## Main statements

- `Analyzer.ofDictionary_evaluate` — the analyser that evaluation makes
- `Analyzer.search_eq_evalSearch` — the search needs no paradigm
- `Analyzer.exists_of_finds` — what evaluation finds for a word

## Design notes

An analyser that is evaluated is a definition of its own, so that it is made once for all words that
are evaluated with it. What goes before a definition is checked before the definition is, which also
keeps evaluations from piling up behind one another.
-/

namespace TurkishMorphology

namespace Analyzer

variable {z : Analyzer}

section Dictionary

/-- The analyser for Turkish that looks for roots in a list. -/
def ofRootList (rs : List Root) (options : Options) : Except GrammarError Analyzer := do
  let find (s : Word) : List Root := RootIndex.lookup rs s
  let forcing ← Forcing.turkish Turkish.grammar
  let fixedPaths ← Irregular.drafts.foldlM (fun p d =>
    ((find d.surface).filter (FixedPaths.concerns d)).foldlM
      (FixedPaths.addRoot Turkish.grammar d) p) {}
  let dictionary : RootSource := ⟨fun beginning _ => !beginning.isEmpty, fun s _ => find s⟩
  return { grammar := Turkish.grammar, paradigm := Turkish.paradigm,
           source := options.sources.chainWith dictionary, forcing, fixedPaths, options }

theorem ofIndex_ofRoots (rs : List Root) (options : Options) :
    ofIndex (.ofRoots rs) options = ofRootList rs options := by
  -- The table occurs through `get` only, and `get` finds what the look-up in the list finds.
  have hget : (RootIndex.ofRoots rs).get = RootIndex.lookup rs :=
    funext fun s => RootIndex.get_ofRoots rs s
  have hdraft : FixedPaths.addDraft Turkish.grammar (.ofRoots rs) = fun p d =>
      ((RootIndex.lookup rs d.surface).filter (FixedPaths.concerns d)).foldlM
        (FixedPaths.addRoot Turkish.grammar d) p := by
    funext p d
    rw [FixedPaths.addDraft, hget]
  simp only [ofIndex, ofRootList, FixedPaths.turkish, FixedPaths.build, hdraft,
    RootSource.dictionary, hget, SourceOptions.chain]

/-- The analyser over a dictionary text, the roots being looked for in a list. -/
def evalDictionary (lexicon : LexiconOptions) (options : Options) (text : Word) :
    Option Analyzer := do
  let lexemes ← (Entry.readAll text).toOption
  let rss ← (lexemes.mapM (RootIndex.rootsOf lexicon)).toOption
  (ofRootList rss.flatten options).toOption

/-- Evaluation makes the analyser over the dictionary. -/
theorem ofDictionary_of_evalDictionary {lexicon : LexiconOptions} {options : Options} {text : Word}
    (h : evalDictionary lexicon options text = some z) :
    ofDictionary lexicon options text = .ok z := by
  simp only [evalDictionary, Option.bind_eq_bind, Option.bind_eq_some_iff,
    Except.toOption_eq_some_iff] at h
  obtain ⟨lexemes, hlexemes, rss, hrss, hz⟩ := h
  have hindex : RootIndex.ofLexemes lexicon lexemes = .ok (.ofRoots rss.flatten) :=
    RootIndex.ofLexemes_eq_ok_iff.mpr ⟨rss, hrss, rfl⟩
  refine ofDictionary_eq_ok_iff.mpr ⟨lexemes, hlexemes, _, hindex, ?_⟩
  rw [← ofIndex_eq_ok_iff, ofIndex_ofRoots]
  exact hz

/-- The analyser over a dictionary text that is known to be well written. -/
def evaluate (lexicon : LexiconOptions) (options : Options) (text : Word)
    (h : (evalDictionary lexicon options text).isSome = true) : Analyzer :=
  (evalDictionary lexicon options text).get h

theorem ofDictionary_evaluate {lexicon : LexiconOptions} {options : Options} {text : Word}
    (h : (evalDictionary lexicon options text).isSome = true) :
    ofDictionary lexicon options text = .ok (evaluate lexicon options text h) :=
  ofDictionary_of_evalDictionary (Option.some_get h).symm

end Dictionary

section Search

/-- The steps that an analysis can take, read off the grammar. -/
def evalSuccessors (z : Analyzer) (a : Analysis) : Except AnalysisFault (List Analysis) :=
  if z.grammar.stateIds.contains a.state && Phonetics.contexts.contains a.attributes then
    .ok <| ((z.grammar.continuations a.state a.attributes).filter fun c =>
      c.realization.text.isPrefixOf a.remaining).filterMap fun c =>
        (a.takeContinuation z.grammar c).toOption
  else .error (.cellMissing (z.grammar.state a.state).name a.attributes)

theorem successors_eq_evalSuccessors (hz : z.paradigm = .ofGrammar z.grammar)
    (hg : z.grammar.IsClosed) :
    z.successors = z.evalSuccessors := by
  funext a
  unfold successors evalSuccessors
  rw [hz]
  by_cases hcell : a.state ∈ z.grammar.stateIds ∧ a.attributes ∈ Phonetics.contexts
  · rw [(Paradigm.cell?_ofGrammar_eq_some_iff hg).mpr ⟨hcell.1, hcell.2, rfl⟩]
    simp [hcell.1, hcell.2]
  · have hnone : (Paradigm.ofGrammar z.grammar).cell? a.state a.attributes = none := by
      rw [Option.eq_none_iff_forall_ne_some]
      intro cell hsome
      obtain ⟨hs, hc, -⟩ := (Paradigm.cell?_ofGrammar_eq_some_iff hg).mp hsome
      exact hcell ⟨hs, hc⟩
    rw [hnone, if_neg (by simpa using hcell)]

/-- The search without a paradigm. -/
def evalSearch (z : Analyzer) : Nat → List Analysis → Except AnalysisFault (List Analysis)
  | left, as =>
    match z.unfinished as, left with
    | [], _ => .ok (z.complete as)
    | live, 0 => .error (.generationsExceeded live.length z.options.maxGenerations)
    | live, left + 1 => do
      let next ← live.mapM z.evalSuccessors
      let later ← evalSearch z left next.flatten
      return z.complete as ++ later

theorem search_eq_evalSearch (hz : z.paradigm = .ofGrammar z.grammar)
    (hg : z.grammar.IsClosed) (left : Nat) (as : List Analysis) :
    z.search left as = z.evalSearch left as := by
  induction left generalizing as with
  | zero =>
    rw [search.eq_def, evalSearch.eq_def]
    dsimp only
    cases z.unfinished as <;> rfl
  | succ left ih =>
    rw [search.eq_def, evalSearch.eq_def]
    dsimp only
    cases z.unfinished as with
    | nil => rfl
    | cons b bs =>
      simp only [generation, successors_eq_evalSuccessors hz hg, ih, bind_assoc, pure_bind]

/-- Whether parsing the word succeeds with analyses that pass the test. -/
def finds (z : Analyzer) (word : Word) (test : List Analysis → Bool) : Bool :=
  (z.firstGeneration word >>= z.evalSearch z.options.maxGenerations).toOption.any test

/-- What evaluation finds for a word is what parsing the word finds. -/
theorem exists_of_finds {lexicon : LexiconOptions} {options : Options} {text : Word}
    (hz : ofDictionary lexicon options text = .ok z) (word : Word) (test : List Analysis → Bool)
    (h : z.finds word test = true) :
    ∃ results, z.parse word = .ok results ∧ test results = true := by
  obtain ⟨lexemes, -, index, -, hturkish⟩ := ofDictionary_eq_ok_iff.mp hz
  obtain ⟨results, hfound, htest⟩ := (Option.any_eq_true _ _).mp h
  obtain ⟨starts, hstarts, hsearch⟩ :=
    Except.bind_eq_ok_iff.mp (Except.toOption_eq_some_iff.mp hfound)
  rw [← search_eq_evalSearch hturkish.paradigm_eq hturkish.isClosed] at hsearch
  exact ⟨results, parse_eq_ok_iff.mpr ⟨starts, hstarts, hsearch⟩, htest⟩

end Search

end Analyzer

end TurkishMorphology
