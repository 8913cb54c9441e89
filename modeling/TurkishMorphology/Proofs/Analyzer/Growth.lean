import TurkishMorphology.Proofs.Analyzer.Divergence
import TurkishMorphology.Proofs.Lexicon.Growth
import Mathlib.Data.List.Perm.Subperm
/-!
# Analysers over larger lexicons

What an analyser finds for a word depends on the roots that its lexicon has for the beginnings of
the word, and on nothing else of the lexicon. More roots in the same order give more analyses in the
same order: each root is searched for itself, and a root has the same fixed paths whatever other
roots there are.

## Main statements

- `FixedPaths.get_congr` — the paths of a root depend on no other root
- `Analyzer.IsTurkish.firstGeneration_sublist` — more roots, more seeds
- `Analyzer.search_sublist` — more seeds, more analyses
- `Analyzer.parse_sublist` — larger lexicons, and lexicons that agree on a word
- `Analyzer.exists_reordering_line` — a line that is added in front of an equal one changes the
  order of analyses
-/

namespace TurkishMorphology

-- ════════════════════════════════════════════════════════════════════════
-- Roots and their paths
-- ════════════════════════════════════════════════════════════════════════

/-- Whether an index has a root decides on the paths of the root. -/
theorem FixedPaths.get_congr {g : Grammar} {index index' : RootIndex} {drafts : List PathDraft}
    {p p' : FixedPaths} {root : Root} (h : build g index drafts = .ok p)
    (h' : build g index' drafts = .ok p') (hindex : ∀ s, (index.get s).Nodup)
    (hindex' : ∀ s, (index'.get s).Nodup) (hroot : ∀ s, root ∈ index.get s ↔ root ∈ index'.get s) :
    p.get root = p'.get root ∧ p.has root = p'.has root := by
  have hget : p.get root = p'.get root := by
    rw [get_build h hindex, get_build h' hindex']
    simp only [hroot]
  refine ⟨hget, ?_⟩
  rw [Bool.eq_iff_iff, has_iff_get_ne_nil h, has_iff_get_ne_nil h', hget]

namespace SourceOptions

open RootSource

variable {options : SourceOptions} {index index' : RootIndex} {beginning whole : Word} {r : Root}
  {lexicon lexicon' : LexiconOptions} {ls ls' : List Lexeme}

theorem roots_chain_sublist (h : (index.get beginning).Sublist (index'.get beginning)) :
    ((options.chain index).roots beginning whole).Sublist
      ((options.chain index').roots beginning whole) := by
  rw [roots_chain, roots_chain]
  refine List.Sublist.append_left ?_ _
  split
  · exact h
  · exact List.nil_sublist _

theorem roots_chain_subset (h : index.get beginning ⊆ index'.get beginning) :
    (options.chain index).roots beginning whole ⊆ (options.chain index').roots beginning whole := by
  rw [roots_chain, roots_chain]
  intro r hr
  rcases List.mem_append.mp hr with hr | hr
  · exact List.mem_append_left _ hr
  · refine List.mem_append_right _ ?_
    split at hr
    · next hasks =>
      rw [if_pos hasks]
      exact h hr
    · cases hr

/-- A root that is found in a word is in one index if it is in the other. -/
theorem mem_get_iff_of_mem_roots (hindex : RootIndex.ofLexemes lexicon ls = .ok index)
    (hindex' : RootIndex.ofLexemes lexicon' ls' = .ok index')
    (hget : index.get beginning ⊆ index'.get beginning)
    (hr : r ∈ (options.chain index).roots beginning whole) (s : Word) :
    r ∈ index.get s ↔ r ∈ index'.get s := by
  rcases isOfInput_or_mem_get hr with hinput | hmem
  · constructor
    · exact fun h => absurd (RootIndex.kind_of_mem_get hindex h) hinput.kind
    · exact fun h => absurd (RootIndex.kind_of_mem_get hindex' h) hinput.kind
  · have hspelled := (RootIndex.exists_origin hindex hmem).1
    constructor
    · intro h
      rw [← (RootIndex.exists_origin hindex h).1, hspelled]
      exact hget hmem
    · intro h
      rw [← (RootIndex.exists_origin hindex' h).1, hspelled]
      exact hmem

end SourceOptions

theorem Forcing.eq_filterMap_of_apply {g : Grammar} {rules : Forcing} {as bs : List Analysis}
    (h : rules.apply g as = .ok bs) :
    bs = as.filterMap fun a => (rules.applyTo g a).toOption.join := by
  obtain ⟨forced, hforced, h⟩ := Except.bind_eq_ok_iff.mp h
  cases h
  rw [Except.mapM_eq_ok_iff] at hforced
  clear h
  induction hforced with
  | nil => rfl
  | @cons a forced as rest ha _ ih =>
    rw [List.filterMap_cons, List.filterMap_cons, ih, ha]
    rfl

namespace Analyzer

variable {z z' : Analyzer} {word beginning : Word} {options options' : Options}

-- ════════════════════════════════════════════════════════════════════════
-- The search
-- ════════════════════════════════════════════════════════════════════════

section Search

variable {as bs found found' : List Analysis} {left left' n : Nat}

theorem generationAt_sublist (h : as.Sublist bs) (n : Nat) :
    (z.generationAt as n).Sublist (z.generationAt bs n) := by
  induction n generalizing as bs with
  | zero => exact h
  | succ n ih => exact ih ((h.filter _).flatMap _)

/-- After a generation in which no analysis goes on nothing else is found. -/
theorem completeUpTo_sublist (hend : z.unfinished (z.generationAt as n) = []) (k : Nat) :
    (z.completeUpTo as k).Sublist (z.completeUpTo as (n + 1)) := by
  induction k with
  | zero => exact List.nil_sublist _
  | succ k ih =>
    by_cases hk : k ≤ n
    · exact (List.range_sublist.mpr (by omega)).flatMap _
    · have hnone : z.generationAt as k = [] := generationAt_eq_nil hend (by omega)
      have hlast : z.completeUpTo as (k + 1) = z.completeUpTo as k := by
        rw [completeUpTo, List.range_succ, List.flatMap_append, List.flatMap_singleton, hnone]
        exact List.append_nil _
      rwa [hlast]

/-- A search from more analyses finds more, in the same order. -/
theorem search_sublist (h : as.Sublist bs) (hfound : z.search left as = .ok found)
    (hfound' : z.search left' bs = .ok found') : found.Sublist found' := by
  obtain ⟨n, -, -, rfl⟩ := search_eq_ok hfound
  obtain ⟨m, -, hend, rfl⟩ := search_eq_ok hfound'
  have hgrows : (z.completeUpTo as (n + 1)).Sublist (z.completeUpTo bs (n + 1)) :=
    List.Sublist.flatMap_right _ fun k _ => (generationAt_sublist h k).filter _
  exact hgrows.trans (completeUpTo_sublist hend (n + 1))

/-- The search depends on the grammar, the paradigm and the limit alone. -/
theorem search_congr (hgrammar : z.grammar = z'.grammar) (hparadigm : z.paradigm = z'.paradigm)
    (hlimit : z.options.maxGenerations = z'.options.maxGenerations) (left : Nat)
    (as : List Analysis) : z.search left as = z'.search left as := by
  have hunfinished : z.unfinished = z'.unfinished := by
    funext bs
    simp only [unfinished, isFinished, hgrammar]
  have hcomplete : z.complete = z'.complete := by
    funext bs
    simp only [complete, isFinished, hgrammar]
  have hgeneration : z.generation = z'.generation := by
    have hsuccessors : z.successors = z'.successors := by
      funext a
      simp only [successors, hgrammar, hparadigm]
    funext bs
    rw [generation, generation, hsuccessors]
  induction left generalizing as with
  | zero =>
    rw [search.eq_def, search.eq_def, hunfinished, hcomplete, hlimit]
    dsimp only
    cases z'.unfinished as <;> rfl
  | succ left ih =>
    rw [search.eq_def, search.eq_def, hunfinished, hcomplete, hgeneration]
    dsimp only
    cases z'.unfinished as with
    | nil => rfl
    | cons b bs => simp only [ih]

end Search

-- ════════════════════════════════════════════════════════════════════════
-- Two lexicons
-- ════════════════════════════════════════════════════════════════════════

namespace IsTurkish

variable {index index' : RootIndex} {lexicon lexicon' : LexiconOptions} {ls ls' : List Lexeme}
  {root : Root} {rest : Word} {as as' starts starts' results results' : List Analysis}

theorem forcing_eq (h : z.IsTurkish index options) (h' : z'.IsTurkish index' options') :
    z.forcing = z'.forcing :=
  Except.ok.inj (h.forcing.symm.trans h'.forcing)

theorem accepts_eq (h : z.IsTurkish index options) (h' : z'.IsTurkish index' options) :
    z.source.accepts = z'.source.accepts := by
  funext beginning word
  rw [h.source, h'.source, SourceOptions.accepts_chain]

/-- Analysers for Turkish with the same limit search in the same way. -/
theorem search_eq (h : z.IsTurkish index options) (h' : z'.IsTurkish index' options')
    (hlimit : options.maxGenerations = options'.maxGenerations) (left : Nat)
    (as : List Analysis) : z'.search left as = z.search left as := by
  refine search_congr (h'.grammar.trans h.grammar.symm) (h'.paradigm.trans h.paradigm.symm) ?_ ..
  rw [h.options, h'.options, hlimit]

variable (hindex : RootIndex.ofLexemes lexicon ls = .ok index)
  (hindex' : RootIndex.ofLexemes lexicon' ls' = .ok index')

include hindex hindex'

/-- A root that is found in a word has the same fixed paths. -/
theorem fixedPaths_congr (h : z.IsTurkish index options) (h' : z'.IsTurkish index' options)
    (hget : index.get beginning ⊆ index'.get beginning)
    (hroot : root ∈ z.source.roots beginning word) :
    z.fixedPaths.get root = z'.fixedPaths.get root ∧
      z.fixedPaths.has root = z'.fixedPaths.has root := by
  rw [h.source] at hroot
  exact FixedPaths.get_congr h.fixedPaths h'.fixedPaths (RootIndex.nodup_get_ofLexemes hindex)
    (RootIndex.nodup_get_ofLexemes hindex')
    (SourceOptions.mem_get_iff_of_mem_roots hindex hindex' hget hroot)

theorem seedsOf_congr (h : z.IsTurkish index options) (h' : z'.IsTurkish index' options)
    (hget : index.get beginning ⊆ index'.get beginning)
    (hroot : root ∈ z.source.roots beginning word) :
    z.seedsOf word root rest = z'.seedsOf word root rest := by
  obtain ⟨hpaths, hhas⟩ := h.fixedPaths_congr hindex hindex' h' hget hroot
  rw [seedsOf, seedsOf, hpaths, hhas, h.grammar, h'.grammar]

theorem seedsAt_congr (h : z.IsTurkish index options) (h' : z'.IsTurkish index' options)
    (hget : index.get beginning = index'.get beginning) :
    z.seedsAt word beginning = z'.seedsAt word beginning := by
  have hroots : z.source.roots beginning word = z'.source.roots beginning word := by
    rw [h.source, h'.source, SourceOptions.roots_chain, SourceOptions.roots_chain, hget]
  have hseeds : ((z.source.roots beginning word).mapM fun root =>
      z.seedsOf word root (word.drop beginning.length)) =
        (z'.source.roots beginning word).mapM fun root =>
          z'.seedsOf word root (word.drop beginning.length) := by
    rw [← hroots]
    exact Except.mapM_congr fun root hroot =>
      h.seedsOf_congr hindex hindex' h' (hget ▸ List.Subset.refl _) hroot
  rw [seedsAt, seedsAt, hseeds, h.accepts_eq h']

theorem seedsAt_sublist (h : z.IsTurkish index options) (h' : z'.IsTurkish index' options)
    (hget : (index.get beginning).Sublist (index'.get beginning))
    (has : z.seedsAt word beginning = .ok as) (has' : z'.seedsAt word beginning = .ok as') :
    as.Sublist as' := by
  unfold seedsAt at has has'
  split at has
  · next haccepts =>
    rw [if_pos (h.accepts_eq h' ▸ haccepts)] at has'
    obtain ⟨ass, hass, has⟩ := Except.bind_eq_ok_iff.mp has
    obtain ⟨ass', hass', has'⟩ := Except.bind_eq_ok_iff.mp has'
    cases has
    cases has'
    have hseeds : ∀ root ∈ z.source.roots beginning word,
        z.seedsOf word root (word.drop beginning.length) =
          z'.seedsOf word root (word.drop beginning.length) := fun root =>
      h.seedsOf_congr hindex hindex' h' hget.subset
    rw [Except.mapM_congr hseeds] at hass
    rw [Except.flatten_of_mapM hass, Except.flatten_of_mapM hass', h.source, h'.source]
    exact (SourceOptions.roots_chain_sublist hget).flatMap _
  · cases has
    exact List.nil_sublist _

theorem firstGeneration_congr (h : z.IsTurkish index options) (h' : z'.IsTurkish index' options)
    (hget : ∀ p, p ≠ [] → p <+: word → index.get p = index'.get p) :
    z.firstGeneration word = z'.firstGeneration word := by
  have hseeds : z.seeds word = z'.seeds word := by
    have hall : (beginnings word).mapM (z.seedsAt word) =
        (beginnings word).mapM (z'.seedsAt word) :=
      Except.mapM_congr fun p hp => h.seedsAt_congr hindex hindex' h'
        (hget p (mem_beginnings_iff.mp hp).1 (mem_beginnings_iff.mp hp).2)
    rw [seeds, seeds, hall]
  rw [firstGeneration, firstGeneration, hseeds, h.forcing_eq h', h.grammar, h'.grammar]

/-- With more roots for the beginnings of a word, the first generation has more analyses. -/
theorem firstGeneration_sublist (h : z.IsTurkish index options) (h' : z'.IsTurkish index' options)
    (hget : ∀ p, p ≠ [] → p <+: word → (index.get p).Sublist (index'.get p))
    (hstarts : z.firstGeneration word = .ok starts)
    (hstarts' : z'.firstGeneration word = .ok starts') : starts.Sublist starts' := by
  obtain ⟨seeds, hseeds, hstarts⟩ := Except.bind_eq_ok_iff.mp hstarts
  obtain ⟨seeds', hseeds', hstarts'⟩ := Except.bind_eq_ok_iff.mp hstarts'
  rw [Forcing.eq_filterMap_of_apply hstarts, Forcing.eq_filterMap_of_apply hstarts',
    h.forcing_eq h', h.grammar, h'.grammar]
  refine List.Sublist.filterMap _ ?_
  obtain ⟨ass, hass, hseeds⟩ := Except.bind_eq_ok_iff.mp hseeds
  obtain ⟨ass', hass', hseeds'⟩ := Except.bind_eq_ok_iff.mp hseeds'
  cases hseeds
  cases hseeds'
  rw [Except.flatten_of_mapM hass, Except.flatten_of_mapM hass']
  refine List.Sublist.flatMap_right _ fun p hp => ?_
  obtain ⟨as, -, has⟩ := Except.exists_of_mem_mapM hass hp
  obtain ⟨as', -, has'⟩ := Except.exists_of_mem_mapM hass' hp
  obtain ⟨hne, hbegins⟩ := mem_beginnings_iff.mp hp
  rw [has, has']
  exact h.seedsAt_sublist hindex hindex' h' (hget p hne hbegins) has has'

/-- The same with more roots in any order. -/
theorem firstGeneration_subset (h : z.IsTurkish index options) (h' : z'.IsTurkish index' options)
    (hget : ∀ s, index.get s ⊆ index'.get s) (hstarts : z.firstGeneration word = .ok starts)
    (hstarts' : z'.firstGeneration word = .ok starts') : starts ⊆ starts' := by
  intro b hb
  obtain ⟨beginning, root, ⟨hne, hbegins, haccepts, hroot⟩, a, hseed, hforced⟩ :=
    (mem_firstGeneration_iff hstarts).mp hb
  have hfinds : z'.Finds word beginning root := by
    refine ⟨hne, hbegins, h.accepts_eq h' ▸ haccepts, ?_⟩
    rw [h'.source]
    exact SourceOptions.roots_chain_subset (hget beginning) (h.source ▸ hroot)
  obtain ⟨hpaths, hhas⟩ := h.fixedPaths_congr hindex hindex' h' (hget beginning) hroot
  have hseed' : z'.Seeds word root (word.drop beginning.length) a := by
    cases hseed with
    | path has hmem hrebase => exact .path (hhas ▸ has) (hpaths ▸ hmem) hrebase
    | root hnone hstate =>
      exact .root (hhas ▸ hnone) (by rwa [h'.grammar, ← h.grammar])
  refine (mem_firstGeneration_iff hstarts').mpr ⟨beginning, root, hfinds, a, hseed', ?_⟩
  rwa [← h.forcing_eq h', h'.grammar, ← h.grammar]

theorem parse_congr (h : z.IsTurkish index options) (h' : z'.IsTurkish index' options)
    (hget : ∀ p, p ≠ [] → p <+: word → index.get p = index'.get p) :
    z.parse word = z'.parse word := by
  have hsearch : z.search z.options.maxGenerations = z'.search z'.options.maxGenerations := by
    funext as
    rw [h.search_eq h' rfl, h.options, h'.options]
  rw [parse, parse, run_eq, run_eq, h.firstGeneration_congr hindex hindex' h' hget, hsearch]

/-- More roots for the beginnings of a word give more analyses, in the same order. -/
theorem parse_sublist_of_get (h : z.IsTurkish index options) (h' : z'.IsTurkish index' options)
    (hget : ∀ p, p ≠ [] → p <+: word → (index.get p).Sublist (index'.get p))
    (hparse : z.parse word = .ok results) (hparse' : z'.parse word = .ok results') :
    results.Sublist results' := by
  obtain ⟨starts, hstarts, hsearch⟩ := parse_eq_ok_iff.mp hparse
  obtain ⟨starts', hstarts', hsearch'⟩ := parse_eq_ok_iff.mp hparse'
  rw [h.search_eq h' rfl] at hsearch'
  exact search_sublist (h.firstGeneration_sublist hindex hindex' h' hget hstarts hstarts') hsearch
    hsearch'

/-- More roots in any order give more analyses, each of them once. -/
theorem parse_subperm_of_get (h : z.IsTurkish index options) (h' : z'.IsTurkish index' options)
    (hget : ∀ s, index.get s ⊆ index'.get s) (hparse : z.parse word = .ok results)
    (hparse' : z'.parse word = .ok results') : results.Subperm results' := by
  refine List.Nodup.subperm (h.nodup_parse hindex hparse) fun b hb => ?_
  obtain ⟨starts, hstarts, hsearch⟩ := parse_eq_ok_iff.mp hparse
  obtain ⟨starts', hstarts', hsearch'⟩ := parse_eq_ok_iff.mp hparse'
  rw [h.search_eq h' rfl] at hsearch'
  obtain ⟨⟨a, ha, hab⟩, hend⟩ := (mem_search_iff h.stops hsearch).mp hb
  exact (mem_search_iff h.stops hsearch').mpr
    ⟨⟨a, h.firstGeneration_subset hindex hindex' h' hget hstarts hstarts' ha, hab⟩, hend⟩

end IsTurkish

-- ════════════════════════════════════════════════════════════════════════
-- Larger lexicons
-- ════════════════════════════════════════════════════════════════════════

/-- Larger lexicons give more analyses. If an index has more roots than another for every beginning
    of a word, in the same order, more analyses of the word are found, in the same order; if the
    indexes agree there, so does what is found. Copies free of circumflexes give more analyses in
    the same order. Lines that are added to a dictionary give more analyses; and in the same order,
    if the entries are first mentioned in the same order. -/
theorem parse_sublist (options : Options) (word : Word) :
    (∀ (lexicon lexicon' : LexiconOptions) (ls ls' : List Lexeme) (index index' : RootIndex)
      (z z' : Analyzer),
      RootIndex.ofLexemes lexicon ls = .ok index → RootIndex.ofLexemes lexicon' ls' = .ok index' →
      ofIndex index options = .ok z → ofIndex index' options = .ok z' →
        ((∀ p, p ≠ [] → p <+: word → (index.get p).Sublist (index'.get p)) →
          ∀ results results', z.parse word = .ok results → z'.parse word = .ok results' →
            results.Sublist results') ∧
        ((∀ p, p ≠ [] → p <+: word → index.get p = index'.get p) →
          z.parse word = z'.parse word)) ∧
    (∀ (text : Word) (z z' : Analyzer) (results results' : List Analysis),
      ofDictionary { circumflexFree := false } options text = .ok z →
      ofDictionary { circumflexFree := true } options text = .ok z' →
      z.parse word = .ok results → z'.parse word = .ok results' → results.Sublist results') ∧
    ∀ (lexicon : LexiconOptions) (text text' : Word) (z z' : Analyzer)
      (results results' : List Analysis),
      ofDictionary lexicon options text = .ok z → ofDictionary lexicon options text' = .ok z' →
      text.lines.Sublist text'.lines →
      z.parse word = .ok results → z'.parse word = .ok results' →
        results.Subperm results' ∧
        ∀ ls ls', Entry.readAll text = .ok ls → Entry.readAll text' = .ok ls' →
          ls.eraseDups.Sublist ls'.eraseDups → results.Sublist results' := by
  refine ⟨?_, ?_, ?_⟩
  · intro lexicon lexicon' ls ls' index index' z z' hindex hindex' hz hz'
    have h := ofIndex_eq_ok_iff.mp hz
    have h' := ofIndex_eq_ok_iff.mp hz'
    exact ⟨fun hget results results' => h.parse_sublist_of_get hindex hindex' h' hget,
      fun hget => h.parse_congr hindex hindex' h' hget⟩
  · intro text z z' results results' hz hz' hparse hparse'
    obtain ⟨ls, hread, index, hindex, h⟩ := ofDictionary_eq_ok_iff.mp hz
    obtain ⟨ls', hread', index', hindex', h'⟩ := ofDictionary_eq_ok_iff.mp hz'
    obtain rfl : ls = ls' := Except.ok.inj (hread.symm.trans hread')
    exact h.parse_sublist_of_get hindex hindex' h'
      (fun p _ _ => RootIndex.get_sublist_of_circumflexFree hindex hindex' p) hparse hparse'
  · intro lexicon text text' z z' results results' hz hz' hlines hparse hparse'
    obtain ⟨ls, hread, index, hindex, h⟩ := ofDictionary_eq_ok_iff.mp hz
    obtain ⟨ls', hread', index', hindex', h'⟩ := ofDictionary_eq_ok_iff.mp hz'
    have hls : ls ⊆ ls' := (Entry.readLines_sublist hlines hread hread').subset
    refine ⟨h.parse_subperm_of_get hindex hindex' h'
      (RootIndex.get_subset hindex hindex' hls) hparse hparse', ?_⟩
    intro _ _ hfirst hfirst' hmentions
    rw [hread, Except.ok.injEq] at hfirst
    rw [hread', Except.ok.injEq] at hfirst'
    subst hfirst
    subst hfirst'
    exact h.parse_sublist_of_get hindex hindex' h'
      (fun p _ _ => RootIndex.get_sublist_of_eraseDups hindex hindex' hmentions p) hparse hparse'

/-- The analyser over a dictionary with the noun `kar`. -/
def kar : Analyzer := evaluate {} {} "kar".toList (by decide +kernel)

/-- The analyser over a dictionary with the nouns `kâr` and `kar`. -/
def karAfter : Analyzer := evaluate {} {} "kâr\nkar".toList (by decide +kernel)

/-- The same with copies free of circumflexes. -/
def karAfterCopy : Analyzer :=
  evaluate { circumflexFree := true } {} "kâr\nkar".toList (by decide +kernel)

theorem finds_kar : (kar.finds "kar".toList fun results => results.length = 1) = true ∧
    (karAfter.finds "kar".toList fun results => results.length = 1) = true ∧
    (karAfterCopy.finds "kar".toList fun results => results.length = 2) = true := by
  decide +kernel

/-- The entry `kâr` comes before `kar`, and without copies it has no root for a beginning of
    `kar`. -/
theorem mentions_kar {ls ls' : List Lexeme} (h : Entry.readAll "kar".toList = .ok ls)
    (h' : Entry.readAll "kâr\nkar".toList = .ok ls') :
    ls.eraseDups.Sublist ls'.eraseDups ∧ ∀ p ∈ beginnings "kar".toList,
      ls.eraseDups.flatMap (RootIndex.block {} p) =
        ls'.eraseDups.flatMap (RootIndex.block {} p) := by
  have hread : ((Entry.readAll "kar".toList).toOption.getD []).eraseDups.Sublist
        ((Entry.readAll "kâr\nkar".toList).toOption.getD []).eraseDups ∧
      ∀ p ∈ beginnings "kar".toList,
        ((Entry.readAll "kar".toList).toOption.getD []).eraseDups.flatMap
            (RootIndex.block {} p) =
          ((Entry.readAll "kâr\nkar".toList).toOption.getD []).eraseDups.flatMap
            (RootIndex.block {} p) := by
    decide +kernel
  rwa [h, h'] at hread

/-- The analyses of `kar` in three dictionaries: by itself, after `kâr`, and after a copy of
    `kâr`. -/
theorem parse_sublist_kar :
    ∃ alone both copies, kar.parse "kar".toList = .ok alone ∧
      karAfter.parse "kar".toList = .ok both ∧ karAfterCopy.parse "kar".toList = .ok copies ∧
      alone.length = 1 ∧ copies.length = 2 ∧
      kar.parse "kar".toList = karAfter.parse "kar".toList ∧ alone.Sublist copies ∧
      both.Sublist copies ∧ alone.Subperm both ∧ alone.Sublist both := by
  have hkar : ofDictionary {} {} "kar".toList = .ok kar := ofDictionary_evaluate _
  have hafter : ofDictionary {} {} "kâr\nkar".toList = .ok karAfter := ofDictionary_evaluate _
  have hcopy : ofDictionary { circumflexFree := true } {} "kâr\nkar".toList = .ok karAfterCopy :=
    ofDictionary_evaluate _
  obtain ⟨alone, halone, hone⟩ := exists_of_finds hkar _ _ finds_kar.1
  obtain ⟨both, hboth, -⟩ := exists_of_finds hafter _ _ finds_kar.2.1
  obtain ⟨copies, hcopies, htwo⟩ := exists_of_finds hcopy _ _ finds_kar.2.2
  obtain ⟨ls, hread, index, hindex, h⟩ := ofDictionary_eq_ok_iff.mp hkar
  obtain ⟨ls', hread', index', hindex', h'⟩ := ofDictionary_eq_ok_iff.mp hafter
  obtain ⟨ls'', hread'', index'', hindex'', h''⟩ := ofDictionary_eq_ok_iff.mp hcopy
  obtain rfl : ls' = ls'' := Except.ok.inj (hread'.symm.trans hread'')
  obtain ⟨hmentions, hblocks⟩ := mentions_kar hread hread'
  obtain ⟨hlaw, hfree, hlines⟩ := parse_sublist {} "kar".toList
  refine ⟨alone, both, copies, halone, hboth, hcopies, by simpa using hone, by simpa using htwo,
    ?_, ?_, hfree _ _ _ _ _ hafter hcopy hboth hcopies, ?_⟩
  · refine (hlaw _ _ _ _ _ _ _ _ hindex hindex' (ofIndex_eq_ok_iff.mpr h)
      (ofIndex_eq_ok_iff.mpr h')).2 fun p hne hp => ?_
    rw [RootIndex.get_ofLexemes hindex, RootIndex.get_ofLexemes hindex']
    exact hblocks p (mem_beginnings_iff.mpr ⟨hne, hp⟩)
  · refine (hlaw _ _ _ _ _ _ _ _ hindex hindex'' (ofIndex_eq_ok_iff.mpr h)
      (ofIndex_eq_ok_iff.mpr h'')).1 (fun p _ _ => ?_) _ _ halone hcopies
    exact (RootIndex.get_sublist_of_eraseDups hindex hindex' hmentions p).trans
      (RootIndex.get_sublist_of_circumflexFree hindex' hindex'' p)
  · obtain ⟨hsubperm, hsublist⟩ :=
      hlines _ _ _ _ _ _ _ hkar hafter (by decide +kernel) halone hboth
    exact ⟨hsubperm, hsublist _ _ hread hread' hmentions⟩

/-- The analyser over a dictionary with the conjunction and the interjection `ya`. -/
def ya : Analyzer := evaluate {} {} "ya [P:Conj]\nya [P:Interj]".toList (by decide +kernel)

/-- The same with a line in front that repeats the second one. -/
def yaRepeated : Analyzer :=
  evaluate {} {} "ya [P:Interj]\nya [P:Conj]\nya [P:Interj]".toList (by decide +kernel)

/-- Analyses may change places when a line is added to a dictionary. With the conjunction `ya`
    before the interjection, the conjunction is found first; if the line of the interjection is
    repeated in front of both, the interjection is, since equal roots are kept where they are first
    added. -/
theorem exists_reordering_line :
    (Word.lines "ya [P:Conj]\nya [P:Interj]".toList).Sublist
      (Word.lines "ya [P:Interj]\nya [P:Conj]\nya [P:Interj]".toList) ∧
    ∃ z z' results results',
      ofDictionary {} {} "ya [P:Conj]\nya [P:Interj]".toList = .ok z ∧
      ofDictionary {} {} "ya [P:Interj]\nya [P:Conj]\nya [P:Interj]".toList = .ok z' ∧
      z.parse "ya".toList = .ok results ∧ z'.parse "ya".toList = .ok results' ∧
      ¬ results.Sublist results' := by
  have hfinds : (ya.finds "ya".toList fun results =>
        results.map (fun a => a.root.lexeme.pos) = [.conjunction, .interjection]) = true ∧
      (yaRepeated.finds "ya".toList fun results =>
        results.map (fun a => a.root.lexeme.pos) = [.interjection, .conjunction]) = true := by
    decide +kernel
  have hya : ofDictionary {} {} "ya [P:Conj]\nya [P:Interj]".toList = .ok ya :=
    ofDictionary_evaluate _
  have hrepeated : ofDictionary {} {} "ya [P:Interj]\nya [P:Conj]\nya [P:Interj]".toList =
      .ok yaRepeated := ofDictionary_evaluate _
  obtain ⟨results, hparse, hpos⟩ := exists_of_finds hya _ _ hfinds.1
  obtain ⟨results', hparse', hpos'⟩ := exists_of_finds hrepeated _ _ hfinds.2
  refine ⟨by decide +kernel, ya, yaRepeated, results, results', hya, hrepeated, hparse, hparse',
    fun hsublist => ?_⟩
  have hmap := hsublist.map fun a => a.root.lexeme.pos
  rw [of_decide_eq_true hpos, of_decide_eq_true hpos'] at hmap
  exact absurd hmap (by decide)

end Analyzer

end TurkishMorphology
