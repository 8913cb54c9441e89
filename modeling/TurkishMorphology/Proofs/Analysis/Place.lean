import TurkishMorphology.Proofs.Analysis.FixedPath
import TurkishMorphology.Proofs.Analysis.Forcing
import TurkishMorphology.Proofs.Grammar.Turkish
import TurkishMorphology.Proofs.Lexicon.Context
/-!
# Analyses have a place in the paradigm

The cells of a paradigm are the pairs of a state and a context. An analysis has a place among them
when its state is one of the grammar and its attributes are a context. It has one where it begins,
and every step keeps it there: the attributes after a step are those of the root as long as no
letter is added, and after that those of a word.

## Main definitions

- `Analysis.IsPlaced` — an analysis with a place in the paradigm

## Main statements

- `Analysis.IsPlaced.extend` — a step keeps the place, whether a gate has judged it or not
- `Analysis.IsPlaced.reflTransGen` — runs along a grammar
- `FixedPaths.IsPathOf.isPlaced` — fixed paths
-/

namespace TurkishMorphology

/-- The state is one of the grammar and the attributes are a context. The root and the surface are
    what the attributes after a step come from. -/
structure Analysis.IsPlaced (g : Grammar) (a : Analysis) : Prop where
  state : a.state ∈ g.stateIds
  attributes : a.attributes ∈ Phonetics.contexts
  root : a.root.HasContext
  surface : a.surface ≠ []

namespace Analysis.IsPlaced

variable {g : Grammar} {a b : Analysis}

theorem begin {root : Root} {state : StateId} (hroot : root.HasContext)
    (hstate : state ∈ g.stateIds) (rest : Word) : (Analysis.begin root state rest).IsPlaced g :=
  ⟨hstate, hroot.attributes, hroot, hroot.surface⟩

theorem extend (h : a.IsPlaced g) {r : Realization} {target : StateId}
    (htarget : target ∈ g.stateIds) : (a.extend g r target).IsPlaced g := by
  have hsurface : a.surface ++ r.text ≠ [] := List.append_ne_nil_of_left_ne_nil h.surface _
  refine ⟨htarget, ?_, h.root, hsurface⟩
  change phoneticView a.root (a.surface ++ r.text) _ ∈ Phonetics.contexts
  unfold phoneticView
  simp only
  split
  · exact h.root.attributes
  · exact Phonetics.ofSurface_mem_contexts hsurface _

theorem reflTransGen (hg : g.IsClosed) (h : a.IsPlaced g)
    (hab : Relation.ReflTransGen (Analysis.Takes g) a b) : b.IsPlaced g :=
  invariant_of_takes hab h fun _ _ _ hc hfollows _ => hc.extend (hg _ hfollows.edge)

theorem rebase (h : a.IsPlaced g) {word : Word} (hb : a.rebase word = some b) : b.IsPlaced g := by
  obtain ⟨-, rfl⟩ := rebase_eq_some_iff.mp hb
  exact ⟨h.state, h.attributes, h.root, h.surface⟩

end Analysis.IsPlaced

theorem PathStep.target_mem_stateIds {g : Grammar} (hg : g.NamesStates) {s : PathStep}
    {r : Realization} {target : StateId} (h : s.resolve g = .ok (r, target)) :
    target ∈ g.stateIds := by
  obtain ⟨suffix, -, h⟩ := Except.bind_eq_ok_iff.mp h
  obtain ⟨form, -, h⟩ := Except.bind_eq_ok_iff.mp h
  obtain ⟨state, hstate, h⟩ := Except.bind_eq_ok_iff.mp h
  cases h
  exact hg.mem_stateIds hstate

theorem FixedPaths.IsPathOf.isPlaced {g : Grammar} {index : RootIndex} {drafts : List PathDraft}
    {root : Root} {path : Analysis} (h : IsPathOf g index drafts root path) (hg : g.NamesStates)
    (hroot : root.HasContext) (hstates : ∀ s, g.rootState root = .ok s → s ∈ g.stateIds) :
    path.IsPlaced g := by
  obtain ⟨d, -, -, state, hstate, steps, -, hpath⟩ := h.made
  refine follow_induction hpath (.begin hroot (hstates state hstate) []) ?_
  intro s _ a r target hr ha
  exact ha.extend (PathStep.target_mem_stateIds hg hr)

end TurkishMorphology
