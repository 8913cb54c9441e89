import TurkishMorphology.Proofs.Analysis.Agreement
import TurkishMorphology.Proofs.Analysis.Foresight
import TurkishMorphology.Proofs.Analyzer.Soundness
/-!
# No analysis is found twice

The analyses of a word differ in their roots or go different ways: neither takes the steps of the
other and goes on. The seeds of a word do, as no source finds a root twice and the fixed paths of a
root part. An analysis that goes on takes different steps along its continuations, and one that is
finished has not gone on.

## Main definitions

- `Analysis.Diverges` — analyses of different roots, or ones that go different ways

## Main statements

- `SourceOptions.nodup_roots` — no root is found twice
- `FixedPaths.pairwise_marks` — the fixed paths of a root differ in what is printed of them
- `Analyzer.IsTurkish.pairwise_firstGeneration` — the seeds of a word diverge
- `Analyzer.IsTurkish.pairwise_parse`, `Analyzer.IsTurkish.nodup_parse` — the analyses of a word
  diverge, and so none is found twice
-/

namespace TurkishMorphology

-- ════════════════════════════════════════════════════════════════════════
-- Roots
-- ════════════════════════════════════════════════════════════════════════

namespace RootSource

variable {beginning whole : Word}

/-- A chain finds no root twice if no two of its links do, both being asked. -/
theorem nodup_rootsAlong {links : List Link}
    (heach : ∀ link ∈ links, (link.source.roots beginning whole).Nodup)
    (hlinks : links.Pairwise fun l m => l.exclusive = false →
      l.source.accepts beginning whole = true → m.source.accepts beginning whole = true →
        ∀ r ∈ l.source.roots beginning whole, r ∉ m.source.roots beginning whole) :
    (rootsAlong beginning whole links).Nodup := by
  induction links with
  | nil => exact List.nodup_nil
  | cons link rest ih =>
    obtain ⟨hlink, hrest⟩ := List.pairwise_cons.mp hlinks
    have hlater := ih (fun l hl => heach l (List.mem_cons_of_mem _ hl)) hrest
    by_cases haccepts : link.source.accepts beginning whole = true
    · rw [rootsAlong, if_pos haccepts]
      refine List.nodup_append.mpr ⟨heach link (List.mem_cons_self ..), ?_, ?_⟩
      · split
        · exact List.nodup_nil
        · exact hlater
      · intro r hr s hs hrs
        subst hrs
        by_cases hexclusive : link.exclusive = true
        · rw [if_pos hexclusive] at hs
          exact List.not_mem_nil hs
        · rw [if_neg hexclusive] at hs
          obtain ⟨m, hm, hmaccepts, hmr⟩ := mem_rootsAlong hs
          exact hlink m hm (Bool.eq_false_iff.mpr hexclusive) haccepts hmaccepts r hr hmr
    · rwa [rootsAlong, if_neg haccepts]

end RootSource

namespace RootIndex

/-- An index of lexemes holds listed roots only. -/
theorem kind_of_mem_get {options : LexiconOptions} {ls : List Lexeme} {index : RootIndex}
    {r : Root} {s : Word} (h : ofLexemes options ls = .ok index) (hr : r ∈ index.get s) :
    r.kind = .listed := by
  obtain ⟨-, t, hcopy, hkind, -⟩ := exists_root_of_mem_get h hr
  rcases Lexeme.mem_withPlainCopy_iff.mp hcopy with rfl | ⟨-, rfl⟩ <;> exact hkind

end RootIndex

namespace SourceOptions

open RootSource

variable {lexicon : LexiconOptions} {ls : List Lexeme} {index : RootIndex}

theorem besides_sublist (options : SourceOptions) :
    options.besides.Sublist [⟨numeral, true⟩, ⟨.punctuation, true⟩, ⟨apostrophe, false⟩,
      ⟨capitalised, false⟩] := by
  obtain ⟨numerals, properNouns, punctuation⟩ := options
  cases numerals <;> cases properNouns <;> cases punctuation <;> simp [besides]

/-- A word is set off by an apostrophe, or it is the whole word. -/
theorem not_capitalised_of_apostrophe {beginning whole : Word}
    (h : apostrophe.accepts beginning whole = true) :
    capitalised.accepts beginning whole = false := by
  rw [← Bool.not_eq_true]
  intro hwhole
  simp only [capitalised, Bool.and_eq_true, beq_iff_eq] at hwhole
  obtain ⟨⟨rfl, -⟩, -⟩ := hwhole
  simp [apostrophe, rest?] at h

/-- No root is found twice. -/
theorem nodup_roots (options : SourceOptions) (h : RootIndex.ofLexemes lexicon ls = .ok index)
    (beginning whole : Word) : ((options.chain index).roots beginning whole).Nodup := by
  refine nodup_rootsAlong ?_ ?_
  · intro link hlink
    rcases List.mem_append.mp hlink with hlink | hlink
    · rcases mem_besides hlink with rfl | rfl | rfl | rfl
      · change (numeralRoots beginning).Nodup
        unfold numeralRoots
        split
        · exact List.nodup_nil
        · exact List.nodup_singleton _
      all_goals exact List.nodup_singleton _
    · obtain rfl := List.mem_singleton.mp hlink
      exact RootIndex.nodup_get_ofLexemes h beginning
  · refine List.pairwise_append.mpr ⟨?_, List.pairwise_singleton _ _, ?_⟩
    · refine List.Pairwise.sublist (besides_sublist options) ?_
      simp only [List.pairwise_cons, List.mem_cons, List.not_mem_nil, or_false, forall_eq,
        Bool.true_eq_false, and_true, true_and, IsEmpty.forall_iff, implies_true,
        List.Pairwise.nil]
      intro _ hapostrophe hcapitalised
      rw [not_capitalised_of_apostrophe hapostrophe] at hcapitalised
      cases hcapitalised
    · intro link hlink dictionary hdictionary _ _ _ r hr hget
      obtain rfl := List.mem_singleton.mp hdictionary
      exact (isOfInput_of_mem_roots hlink hr).kind (RootIndex.kind_of_mem_get h hget)

end SourceOptions

-- ════════════════════════════════════════════════════════════════════════
-- Fixed paths
-- ════════════════════════════════════════════════════════════════════════

/-- What is printed of the steps that a draft stands for, from a state on. -/
def PathStep.marks (g : Grammar) (state : StateId) (steps : List PathStep) : List Mark :=
  ((trail g state steps).toOption.getD []).flatMap (Step.marks g)

namespace Irregular

theorem nodup_surfaces : (drafts.map PathDraft.surface).Nodup := by decide

/-- The paths of a draft differ in what is printed of them. -/
theorem pairwise_marks : ∀ d ∈ drafts, (Turkish.grammar.rootStateOf d.pos).toOption.all
    (fun state => d.paths.Pairwise fun x y => Incomparable (PathStep.marks Turkish.grammar state x)
      (PathStep.marks Turkish.grammar state y)) = true := by
  decide +kernel

end Irregular

namespace FixedPaths

variable {index : RootIndex} {p : FixedPaths} {root : Root} {lexicon : LexiconOptions}
  {ls : List Lexeme}

theorem pairwise_draftPaths {d : PathDraft} (hd : d ∈ Irregular.drafts)
    (hconcerns : concerns d root = true) :
    (draftPaths Turkish.grammar d root).Pairwise fun x y =>
      Incomparable (x.steps.flatMap (Step.marks Turkish.grammar))
        (y.steps.flatMap (Step.marks Turkish.grammar)) := by
  rw [draftPaths]
  cases hpaths : (Turkish.grammar.rootState root >>= fun state =>
      d.paths.mapM (path Turkish.grammar root state)) with
  | error e => exact List.Pairwise.nil
  | ok paths =>
    obtain ⟨state, hstate, hpaths⟩ := Except.bind_eq_ok_iff.mp hpaths
    simp only [concerns, decide_eq_true_eq] at hconcerns
    rw [Turkish.rootState_eq_rootStateOf (hconcerns.2 ▸ (Irregular.lowersDepth d hd).1),
      hconcerns.2] at hstate
    have hmarks := Irregular.pairwise_marks d hd
    rw [hstate] at hmarks
    refine Except.pairwise_of_mapM hpaths (of_decide_eq_true hmarks) ?_
    intro x x' y y' hdiverge hy hy'
    have htrail : ∀ {x y}, path Turkish.grammar root state x = .ok y →
        PathStep.marks Turkish.grammar state x =
          y.steps.flatMap (Step.marks Turkish.grammar) := by
      intro x y hy
      obtain ⟨new, hnew, hsteps⟩ := exists_trail_of_follow hy
      change PathStep.trail Turkish.grammar state x = .ok new at hnew
      rw [PathStep.marks, hnew, hsteps]
      rfl
    rwa [htrail hy, htrail hy'] at hdiverge

/-- The fixed paths of a root differ in what is printed of them. -/
theorem pairwise_marks (h : turkish Turkish.grammar index = .ok p)
    (hindex : RootIndex.ofLexemes lexicon ls = .ok index) (root : Root) :
    (p.get root).Pairwise fun x y =>
      Incomparable (x.steps.flatMap (Step.marks Turkish.grammar))
        (y.steps.flatMap (Step.marks Turkish.grammar)) := by
  rw [get_build h (RootIndex.nodup_get_ofLexemes hindex), List.pairwise_flatMap]
  constructor
  · intro d hd
    split
    · next hconcerned => exact pairwise_draftPaths hd hconcerned.2
    · exact List.Pairwise.nil
  · -- A root is spelled in one way, and so at most one draft is about it.
    refine (List.pairwise_map.mp Irregular.nodup_surfaces).imp ?_
    intro d d' hne x hx y hy
    split at hx
    · next hd =>
      split at hy
      · next hd' =>
        have hsurface := (RootIndex.exists_origin hindex hd.1).1
        have hsurface' := (RootIndex.exists_origin hindex hd'.1).1
        exact absurd (hsurface.symm.trans hsurface') hne
      · cases hy
    · cases hx

end FixedPaths

-- ════════════════════════════════════════════════════════════════════════
-- Continuations
-- ════════════════════════════════════════════════════════════════════════

namespace Grammar

variable {g : Grammar} {context : PhoneticAttributes}

/-- Different forms of a suffix are realized differently. -/
theorem nodup_realizations {suffix : SuffixId} {forms : List FormId} (hforms : forms.Nodup) :
    (forms.flatMap (g.realizations context suffix)).Nodup := by
  refine List.pairwise_flatMap.mpr ⟨fun id _ => ?_, hforms.imp ?_⟩
  · unfold realizations
    dsimp only
    split
    · cases voicedVariant? ((g.form id).template.resolve context) <;> simp
    · exact List.Pairwise.nil
  · rintro id id' hne r hr r' hr' rfl
    exact hne ((isSpelledIn_of_mem_realizations hr).2.1.symm.trans
      (isSpelledIn_of_mem_realizations hr').2.1)

theorem eq_of_mem_continuationsAlong {e : Edge} {c : Continuation}
    (h : c ∈ g.continuationsAlong context e) :
    c.realization.suffix = e.suffix ∧ c.target = e.target := by
  obtain ⟨r, hr, rfl⟩ := List.mem_map.mp h
  obtain ⟨id, -, hr⟩ := List.mem_flatMap.mp hr
  exact ⟨(isSpelledIn_of_mem_realizations hr).2.2, rfl⟩

/-- Continuations of one state differ in how they are spelled or in where they lead. -/
theorem ListsOnce.pairwise_continuations (hg : g.ListsOnce) (s : StateId)
    (context : PhoneticAttributes) :
    (g.continuations s context).Pairwise fun c d =>
      (c.realization, c.target) ≠ (d.realization, d.target) := by
  have hmem {e : Edge} (he : e ∈ g.edgesFrom s) : e ∈ g.edges ∧ e.source = s :=
    mem_edgesFrom_iff.mp he
  refine List.pairwise_flatMap.mpr ⟨fun e he => ?_, ?_⟩
  · refine List.pairwise_map.mpr ((nodup_realizations (hg.forms e (hmem he).1)).imp ?_)
    intro r r' hne heq
    exact hne (congrArg Prod.fst heq)
  · have hedges : (g.edgesFrom s).Nodup := nodup_edgesFrom hg.edges s
    refine List.Pairwise.imp_of_mem ?_ hedges
    intro e e' he he' hne c hc c' hc' heq
    obtain ⟨hrealization, htarget⟩ := Prod.mk.inj heq
    obtain ⟨hsuffix, hto⟩ := eq_of_mem_continuationsAlong hc
    obtain ⟨hsuffix', hto'⟩ := eq_of_mem_continuationsAlong hc'
    have hsame : e = e' := by
      refine (Edge.mk.injEq ..).mpr ⟨(hmem he).2.trans (hmem he').2.symm, ?_, ?_⟩
      · rw [← hsuffix, ← hsuffix', hrealization]
      · rw [← hto, ← hto', htarget]
    exact hne hsame

end Grammar

-- ════════════════════════════════════════════════════════════════════════
-- Analyses
-- ════════════════════════════════════════════════════════════════════════

namespace Analysis

variable {g : Grammar} {a b c d : Analysis}

/-- The analyses have different roots, or neither takes the steps of the other and goes on. -/
def Diverges (a b : Analysis) : Prop := a.root = b.root → Incomparable a.steps b.steps

instance : Std.Symm Diverges where
  symm _ _ h hroot := (h hroot.symm).symm

/-- Analyses that diverge still do when they go on. -/
theorem Diverges.mono (h : a.Diverges b) (hac : Relation.ReflTransGen (Takes g) a c)
    (hbd : Relation.ReflTransGen (Takes g) b d) : c.Diverges d := by
  intro hroot
  rw [root_eq_of_takes hac, root_eq_of_takes hbd] at hroot
  exact (h hroot).mono (steps_prefix_of_takes hac) (steps_prefix_of_takes hbd)

end Analysis

namespace Analyzer

variable {z : Analyzer} {word : Word} {index : RootIndex} {options : Options}
  {lexicon : LexiconOptions} {ls : List Lexeme} {as results starts : List Analysis}

namespace IsTurkish

/-- An analysis takes different steps along its continuations. -/
theorem pairwise_accepted (h : z.IsTurkish index options) (a : Analysis) :
    (z.accepted a).Pairwise Analysis.Diverges := by
  unfold accepted
  cases hcell : z.paradigm.cell? a.state a.attributes with
  | none => exact List.Pairwise.nil
  | some cell =>
    rw [h.paradigm_eq] at hcell
    obtain ⟨-, -, rfl⟩ := (Paradigm.cell?_ofGrammar_eq_some_iff h.isClosed).mp hcell
    have hlists : z.grammar.ListsOnce := h.grammar ▸ Turkish.listsOnce
    refine List.pairwise_filterMap.mpr ((hlists.pairwise_continuations _ _).imp ?_)
    intro c d hne b hb b' hb' _
    obtain ⟨-, rfl⟩ :=
      Analysis.takeContinuation_eq_ok_iff.mp (Except.toOption_eq_some_iff.mp hb)
    obtain ⟨-, rfl⟩ :=
      Analysis.takeContinuation_eq_ok_iff.mp (Except.toOption_eq_some_iff.mp hb')
    have hsteps : a.nextStep z.grammar c.realization c.target ≠
        a.nextStep z.grammar d.realization d.target := by
      intro heq
      simp only [Analysis.nextStep, Step.mk.injEq] at heq
      exact hne (Prod.ext heq.2.1 heq.2.2.1)
    simp [Incomparable, hsteps, hsteps.symm]

theorem pairwise_nextGeneration (h : z.IsTurkish index options)
    (has : as.Pairwise Analysis.Diverges) :
    (z.nextGeneration as).Pairwise Analysis.Diverges := by
  refine List.pairwise_flatMap.mpr ⟨fun a _ => h.pairwise_accepted a, (has.filter _).imp ?_⟩
  intro a b hab c hc d hd
  exact hab.mono (.single (h.takes_of_leads hc)) (.single (h.takes_of_leads hd))

/-- What is complete in one generation does not lead to what is found in later ones. -/
theorem pairwise_search (h : z.IsTurkish index options) (has : as.Pairwise Analysis.Diverges)
    {left : Nat} (hsearch : z.search left as = .ok results) :
    results.Pairwise Analysis.Diverges := by
  induction left generalizing as results with
  | zero =>
    rcases search_eq_ok_iff.mp hsearch with ⟨-, rfl⟩ | ⟨-, left', hleft, -⟩
    · exact has.filter _
    · cases hleft
  | succ left ih =>
    rcases search_eq_ok_iff.mp hsearch with
      ⟨-, rfl⟩ | ⟨-, left', hleft, next, hnext, later, hlater, rfl⟩
    · exact has.filter _
    · obtain rfl := Nat.succ.inj hleft
      obtain rfl : next = z.nextGeneration as := generation_eq_ok hnext
      refine List.pairwise_append.mpr
        ⟨has.filter _, ih (h.pairwise_nextGeneration has) hlater, ?_⟩
      intro a ha c hc
      obtain ⟨⟨b, hb, hbc⟩, -⟩ := (mem_search_iff h.stops hlater).mp hc
      obtain ⟨a', ha', hab⟩ := List.mem_flatMap.mp hb
      obtain ⟨ha, hfinished⟩ := List.mem_filter.mp ha
      obtain ⟨ha', hgoes⟩ := List.mem_filter.mp ha'
      have hne : a ≠ a' := by
        rintro rfl
        rw [Bool.and_eq_true] at hfinished
        simp [hfinished.1] at hgoes
      exact (List.Pairwise.forall has ha ha' hne).mono .refl
        (.head (h.takes_of_leads hab) (h.takes_of_reflTransGen hbc))

-- ════════════════════════════════════════════════════════════════════════
-- Seeds
-- ════════════════════════════════════════════════════════════════════════

theorem pairwise_seedsOf (h : z.IsTurkish index options)
    (hindex : RootIndex.ofLexemes lexicon ls = .ok index) {root : Root} {rest : Word}
    (hseeds : z.seedsOf word root rest = .ok as) : as.Pairwise Analysis.Diverges := by
  unfold seedsOf at hseeds
  split at hseeds
  · cases hseeds
    refine List.pairwise_filterMap.mpr
      ((FixedPaths.pairwise_marks h.fixedPaths hindex root).imp ?_)
    intro p q hpq a ha b hb _
    obtain ⟨-, rfl⟩ := Analysis.rebase_eq_some_iff.mp ha
    obtain ⟨-, rfl⟩ := Analysis.rebase_eq_some_iff.mp hb
    exact hpq.of_flatMap
  · split at hseeds
    · cases hseeds
      exact List.pairwise_singleton ..
    · cases hseeds

theorem pairwise_seedsAt (h : z.IsTurkish index options)
    (hindex : RootIndex.ofLexemes lexicon ls = .ok index) {beginning : Word}
    (hseeds : z.seedsAt word beginning = .ok as) : as.Pairwise Analysis.Diverges := by
  unfold seedsAt at hseeds
  split at hseeds
  · obtain ⟨ass, hass, hseeds⟩ := Except.bind_eq_ok_iff.mp hseeds
    cases hseeds
    refine List.pairwise_flatten.mpr ⟨fun as has => ?_, ?_⟩
    · obtain ⟨root, -, has⟩ := (Except.mem_mapM_iff hass).mp has
      exact h.pairwise_seedsOf hindex has
    · have hroots : (z.source.roots beginning word).Nodup :=
        h.source ▸ options.sources.nodup_roots hindex beginning word
      refine Except.pairwise_of_mapM hass hroots ?_
      intro r s as bs hne has hbs a ha b hb hroot
      rw [h.root_eq_of_seeds ((mem_seedsOf_iff has).mp ha),
        h.root_eq_of_seeds ((mem_seedsOf_iff hbs).mp hb)] at hroot
      exact absurd hroot hne
  · cases hseeds
    exact List.Pairwise.nil

theorem nodup_beginnings (word : Word) : (beginnings word).Nodup := by
  refine List.pairwise_map.mpr (List.Pairwise.imp_of_mem ?_ List.nodup_range)
  intro i j hi hj hne heq
  rw [List.mem_range] at hi hj
  have hlength := congrArg List.length heq
  rw [List.length_take, List.length_take] at hlength
  omega

theorem pairwise_seeds (h : z.IsTurkish index options)
    (hindex : RootIndex.ofLexemes lexicon ls = .ok index) (hseeds : z.seeds word = .ok as) :
    as.Pairwise Analysis.Diverges := by
  obtain ⟨ass, hass, hseeds⟩ := Except.bind_eq_ok_iff.mp hseeds
  cases hseeds
  refine List.pairwise_flatten.mpr ⟨fun as has => ?_, ?_⟩
  · obtain ⟨beginning, -, has⟩ := (Except.mem_mapM_iff hass).mp has
    exact h.pairwise_seedsAt hindex has
  · refine Except.pairwise_of_mapM hass (nodup_beginnings word) ?_
    -- Roots that are found under different beginnings are spelled differently.
    have hsurface : ∀ {beginning : Word} {as : List Analysis}, z.seedsAt word beginning = .ok as →
        ∀ a ∈ as, a.root.surface = beginning := by
      intro beginning as has a ha
      obtain ⟨-, root, hroot, hseed⟩ := (mem_seedsAt_iff has).mp ha
      rw [h.root_eq_of_seeds hseed]
      exact h.spells hindex beginning word root hroot
    intro p q as bs hne has hbs a ha b hb hroot
    have hsame := congrArg Root.surface hroot
    rw [hsurface has a ha, hsurface hbs b hb] at hsame
    exact absurd hsame hne

theorem pairwise_firstGeneration (h : z.IsTurkish index options)
    (hindex : RootIndex.ofLexemes lexicon ls = .ok index)
    (hstarts : z.firstGeneration word = .ok starts) : starts.Pairwise Analysis.Diverges := by
  obtain ⟨seeds, hseeds, hstarts⟩ := Except.bind_eq_ok_iff.mp hstarts
  obtain ⟨forced, hforced, hstarts⟩ := Except.bind_eq_ok_iff.mp hstarts
  cases hstarts
  refine List.pairwise_filterMap.mpr
    (Except.pairwise_of_mapM hforced (h.pairwise_seeds hindex hseeds) ?_)
  rintro a a' _ _ hdiverges ha ha' b rfl b' rfl
  exact hdiverges.mono (Forcing.takes_of_applyTo h.liesAlong ha)
    (Forcing.takes_of_applyTo h.liesAlong ha')

/-- The analyses of a word diverge. -/
theorem pairwise_parse (h : z.IsTurkish index options)
    (hindex : RootIndex.ofLexemes lexicon ls = .ok index) (hparse : z.parse word = .ok results) :
    results.Pairwise Analysis.Diverges := by
  obtain ⟨starts, hstarts, hsearch⟩ := parse_eq_ok_iff.mp hparse
  exact h.pairwise_search (h.pairwise_firstGeneration hindex hstarts) hsearch

/-- No analysis is found twice. -/
theorem nodup_parse (h : z.IsTurkish index options)
    (hindex : RootIndex.ofLexemes lexicon ls = .ok index) (hparse : z.parse word = .ok results) :
    results.Nodup := by
  refine (h.pairwise_parse hindex hparse).imp ?_
  rintro a _ hdiverges rfl
  exact (hdiverges rfl).1 List.prefix_rfl

end IsTurkish

end Analyzer

end TurkishMorphology
