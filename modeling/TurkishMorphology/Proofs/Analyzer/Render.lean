import TurkishMorphology.Proofs.Analyzer.Divergence
/-!
# Printed analyses tell analyses apart

Two analyses of a word that have the same root and are printed in the same way are the same, though
some steps print nothing and some suffixes share a name. Their marks can be read back, and the
marks tell first which fixed path the root has brought along and then the steps along the grammar.

## Main statements

- `Analyzer.IsTurkish.eq_of_supplies` — the marks tell the steps that a root brings along
- `Analyzer.IsReading.eq_of_render_eq` — readings that are printed in the same way are the same
- `Analyzer.render_ne_of_parse` — no two analyses found for a word are printed in the same way,
  unless their roots differ
-/

namespace TurkishMorphology

namespace Irregular

/-- What is printed of the steps of fixed paths can be read back. -/
theorem isClear_trail :
    trailsPass (fun _ steps => steps.all (Step.isClear Turkish.grammar)) = true := by
  decide +kernel

end Irregular

namespace Analyzer

variable {z : Analyzer} {word : Word} {a b : Analysis} {index : RootIndex} {options : Options}
  {lexicon : LexiconOptions} {ls : List Lexeme} {root : Root} {xs ys : List Step}

namespace IsTurkish

theorem isClear_of_supplies (h : z.IsTurkish index options) (hxs : z.Supplies root xs) :
    ∀ s ∈ xs, s.isClear z.grammar = true := by
  rw [Supplies] at hxs
  split at hxs
  · obtain ⟨path, hpath, rfl⟩ := hxs
    have hmade := h.isPathOf hpath
    rw [h.grammar] at hmade ⊢
    obtain ⟨-, -, -, hclear⟩ := hmade.exists_draft_of_trailsPass Irregular.isClear_trail
    exact List.all_eq_true.mp hclear
  · subst hxs
    intro s hs
    cases hs

/-- What is printed of a reading can be read back. -/
theorem isClear_of_follows (h : z.IsTurkish index options) (ha : z.Follows word a) :
    ∀ s ∈ a.steps, s.isClear z.grammar = true := by
  obtain ⟨supplied, taken, hsteps, hsupplied, heach⟩ := ha
  intro s hs
  rw [hsteps, List.mem_append] at hs
  rcases hs with hs | hs
  · exact h.isClear_of_supplies hsupplied s hs
  · obtain ⟨before, after, rfl⟩ := List.append_of_mem hs
    have hclear : z.grammar.PrintsClearly := h.grammar ▸ Turkish.printsClearly
    exact hclear.isClear (heach before s after rfl)

/-- The steps that a root brings along are told by what is printed of them, whatever comes after. -/
theorem eq_of_supplies (h : z.IsTurkish index options)
    (hindex : RootIndex.ofLexemes lexicon ls = .ok index) (hxs : z.Supplies root xs)
    (hys : z.Supplies root ys) {more more' : List Mark}
    (hmarks : xs.flatMap (Step.marks z.grammar) ++ more =
      ys.flatMap (Step.marks z.grammar) ++ more') : xs = ys := by
  rw [Supplies] at hxs hys
  split at hxs
  · next has =>
    rw [if_pos has] at hys
    obtain ⟨p, hp, rfl⟩ := hxs
    obtain ⟨q, hq, rfl⟩ := hys
    by_contra hne
    let Apart : Analysis → Analysis → Prop := fun p q =>
      Incomparable (p.steps.flatMap (Step.marks Turkish.grammar))
        (q.steps.flatMap (Step.marks Turkish.grammar))
    have : Std.Symm Apart := ⟨fun _ _ => Incomparable.symm⟩
    have hapart : Apart p q := List.Pairwise.forall
      (FixedPaths.pairwise_marks h.fixedPaths hindex root) hp hq (fun hpq => hne (hpq ▸ rfl))
    rw [h.grammar] at hmarks
    exact hapart.ne_of_isPrefix (List.prefix_append ..) (List.prefix_append ..) hmarks
  · next hnone =>
    rw [if_neg hnone] at hys
    rw [hxs, hys]

end IsTurkish

/-- The steps of a reading: those that the root brings along, and steps along the grammar. -/
theorem IsReading.exists_along (h : z.IsReading word a) :
    ∃ supplied taken middle, a.steps = supplied ++ taken ∧ z.Supplies a.root supplied ∧
      Step.Path a.rootState supplied middle ∧ Step.Path middle taken a.state ∧
      Step.Along z.grammar (fun before => (Analysis.replay z.grammar a.root a.rootState
        (word.drop a.root.surface.length) (supplied ++ before)).attributes) taken := by
  obtain ⟨supplied, taken, hsteps, hsupplied, hfollows⟩ := h.follows
  have hpath := h.path
  rw [hsteps] at hpath
  obtain ⟨middle, hto, hfrom⟩ := Step.path_append.mp hpath
  refine ⟨supplied, taken, middle, hsteps, hsupplied, hto, hfrom, ?_⟩
  intro before s after hsplit
  have hs : s ∈ a.steps := by simp [hsteps, hsplit]
  rw [← h.replayed] at hs
  exact ⟨hfollows before s after hsplit, Analysis.derives_of_mem_replay hs⟩

/-- Readings of one word from one root that are printed in the same way are the same. -/
theorem IsReading.eq_of_render_eq (h : z.IsTurkish index options)
    (hindex : RootIndex.ofLexemes lexicon ls = .ok index) (ha : z.IsReading word a)
    (hb : z.IsReading word b) (hroot : a.root = b.root)
    (hrender : a.render z.grammar = b.render z.grammar) : a = b := by
  have hstate : a.rootState = b.rootState := by
    have hbegins := ha.begins
    rw [hroot, hb.begins] at hbegins
    exact (Except.ok.inj hbegins).symm
  have hmarks := Analysis.marks_eq_of_render_eq hroot (h.isClear_of_follows ha.follows)
    (h.isClear_of_follows hb.follows) hrender
  have hsteps : a.steps = b.steps := by
    obtain ⟨xs, taken, middle, hxs, hsupplied, hto, hfrom, hfollows⟩ := ha.exists_along
    obtain ⟨ys, taken', middle', hys, hsupplied', hto', hfrom', hfollows'⟩ := hb.exists_along
    rw [← hroot] at hsupplied' hfollows'
    rw [← hstate] at hto' hfollows'
    rw [hxs, hys, List.flatMap_append, List.flatMap_append] at hmarks
    obtain rfl := h.eq_of_supplies hindex hsupplied hsupplied' hmarks
    obtain rfl := Step.Path.target_unique hto hto'
    rw [hxs, hys, List.append_cancel_left_eq]
    exact Step.eq_of_marks_eq (h.grammar ▸ Turkish.showsTexts)
      (h.grammar ▸ Turkish.restsAtTerminals) (h.grammar ▸ Turkish.tellsApart)
      (h.grammar ▸ fun e => Turkish.source_mem_stateIds) hfollows hfollows' hfrom hfrom'
      ha.finished hb.finished (List.append_cancel_left hmarks)
  rw [← ha.replayed, ← hb.replayed, hroot, hstate, hsteps]

/-- The printed text of an analysis tells it from the other analyses of its word that have its
    root: at different positions stand different texts, no analysis is found twice, and texts that
    agree are those of one analysis. -/
theorem render_ne_of_parse {text : Word} {results : List Analysis}
    (hz : ofDictionary lexicon options text = .ok z) (hparse : z.parse word = .ok results) :
    (∀ (i j : Nat) (hi : i < results.length) (hj : j < results.length), i ≠ j →
      results[i].root = results[j].root →
        results[i].render z.grammar ≠ results[j].render z.grammar) ∧
    results.Nodup ∧
    ∀ a ∈ results, ∀ b ∈ results, a.root = b.root →
      a.render z.grammar = b.render z.grammar → a = b := by
  obtain ⟨lexemes, -, index, hindex, hturkish⟩ := ofDictionary_eq_ok_iff.mp hz
  have hinjective : ∀ a ∈ results, ∀ b ∈ results, a.root = b.root →
      a.render z.grammar = b.render z.grammar → a = b := fun a ha b hb =>
    (isReading_of_mem_parse hz hparse ha).eq_of_render_eq hturkish hindex
      (isReading_of_mem_parse hz hparse hb)
  have hnodup := hturkish.nodup_parse hindex hparse
  refine ⟨fun i j hi hj hne hroot hrender => hne ?_, hnodup, hinjective⟩
  exact (hnodup.getElem_inj_iff).mp
    (hinjective _ (List.getElem_mem hi) _ (List.getElem_mem hj) hroot hrender)

/-- The analyser over a dictionary with the noun `ev`. -/
def ev : Analyzer := evaluate {} {} "ev".toList (by decide +kernel)

/-- The accusative and the possessive of `ev` are spelled in one way and printed in two. -/
theorem render_ne_of_parse_ev :
    ∃ results, ev.parse "evi".toList = .ok results ∧ results.length = 2 ∧
      ∀ (i j : Nat) (hi : i < results.length) (hj : j < results.length), i ≠ j →
        results[i].root = results[j].root ∧
          results[i].render ev.grammar ≠ results[j].render ev.grammar := by
  have hz : ofDictionary {} {} "ev".toList = .ok ev := ofDictionary_evaluate _
  obtain ⟨results, hparse, htest⟩ := exists_of_finds hz "evi".toList
    (fun results => results.length = 2 && results.all fun a => results.all fun b =>
      a.root = b.root) (by decide +kernel)
  simp only [Bool.and_eq_true, decide_eq_true_eq, List.all_eq_true] at htest
  refine ⟨results, hparse, htest.1, fun i j hi hj hne => ?_⟩
  have hroot := htest.2 _ (List.getElem_mem hi) _ (List.getElem_mem hj)
  exact ⟨hroot, (render_ne_of_parse hz hparse).1 i j hi hj hne hroot⟩

end Analyzer

end TurkishMorphology
