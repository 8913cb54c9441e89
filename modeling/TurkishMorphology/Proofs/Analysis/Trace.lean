import TurkishMorphology.Analysis.Basic
import Mathlib.Data.List.Induction
/-!
# Analyses as traces

Nothing in an analysis goes beyond its root and its steps: whatever gates the steps have passed,
the analysis is the one that the steps lead to when they are taken again from the root. Its states
form a path, and its surface is the root followed by the texts of the steps.

## Main definitions

- `Step.Path` — steps that lead from one state to another
- `Step.texts` — what steps add to the word
- `Step.Each` — a property of every step, given the steps before it
- `Analysis.replay` — the analysis that steps lead to from a root
- `Analysis.IsTrace` — an analysis that is the replay of its own steps

## Design notes

A fixed path is made on empty input and put at the start of a word later. So the replay of a trace
is compared on any input, and the input itself is no part of a trace.
-/

namespace TurkishMorphology

namespace Step

/-- Steps each of which starts in the state that the one before it leads to. -/
def Path (source : StateId) : List Step → StateId → Prop
  | [], target => source = target
  | s :: rest, target => s.source = source ∧ Path s.target rest target

def texts (steps : List Step) : Word := steps.flatMap fun s => s.realization.text

/-- A property of every step, given the steps before it. -/
def Each (P : List Step → Step → Prop) (steps : List Step) : Prop :=
  ∀ before s after, steps = before ++ s :: after → P before s

theorem path_append_singleton {source target : StateId} {steps : List Step} {s : Step} :
    Path source (steps ++ [s]) target ↔ Path source steps s.source ∧ s.target = target := by
  induction steps generalizing source with
  | nil => simp [Path, eq_comm]
  | cons t rest ih => simp [Path, ih, and_assoc]

theorem path_append {source target : StateId} {xs ys : List Step} :
    Path source (xs ++ ys) target ↔ ∃ middle, Path source xs middle ∧ Path middle ys target := by
  induction xs generalizing source with
  | nil => simp [Path]
  | cons s rest ih => simp [Path, ih, and_assoc]

theorem Path.target_unique {source target target' : StateId} {steps : List Step}
    (h : Path source steps target) (h' : Path source steps target') : target = target' := by
  induction steps generalizing source with
  | nil => exact h.symm.trans h'
  | cons s rest ih => exact ih h.2 h'.2

@[simp]
theorem texts_append (xs ys : List Step) : texts (xs ++ ys) = texts xs ++ texts ys := by
  simp [texts]

@[simp]
theorem texts_singleton (s : Step) : texts [s] = s.realization.text := by
  simp [texts]

theorem each_nil {P : List Step → Step → Prop} : Each P [] := by
  intro before s after h
  simp at h

theorem each_append_singleton {P : List Step → Step → Prop} {steps : List Step} {s : Step} :
    Each P (steps ++ [s]) ↔ Each P steps ∧ P steps s := by
  constructor
  · intro h
    refine ⟨fun before t after e => h before t (after ++ [s]) (by simp [e]), ?_⟩
    exact h steps s [] rfl
  · rintro ⟨hsteps, hs⟩ before t after e
    -- The step is the new one, or there are steps after it, the new one being the last of them.
    obtain rfl | ⟨rest, u, rfl⟩ := after.eq_nil_or_concat
    · obtain ⟨hb, ht⟩ := List.append_inj' e rfl
      cases ht
      exact hb ▸ hs
    · have e' : steps ++ [s] = (before ++ t :: rest) ++ [u] := by simpa using e
      exact hsteps before t rest (List.append_inj' e' rfl).1

end Step

namespace Analysis

variable {g : Grammar} {a : Analysis} {r : Realization} {target : StateId}

section Fields

def nextStep (g : Grammar) (a : Analysis) (r : Realization) (target : StateId) : Step :=
  ⟨a.state, r, target, (g.state a.state).isDerivational⟩

@[simp]
theorem root_extend : (a.extend g r target).root = a.root := rfl

@[simp]
theorem rootState_extend : (a.extend g r target).rootState = a.rootState := rfl

@[simp]
theorem surface_extend : (a.extend g r target).surface = a.surface ++ r.text := rfl

@[simp]
theorem remaining_extend : (a.extend g r target).remaining = a.remaining.drop r.text.length := rfl

@[simp]
theorem state_extend : (a.extend g r target).state = target := rfl

@[simp]
theorem steps_extend : (a.extend g r target).steps = a.steps ++ [a.nextStep g r target] := rfl

@[simp]
theorem expectations_extend :
    (a.extend g r target).expectations = expectationsAfter a.expectations r := rfl

end Fields

/-- The analysis that steps lead to from a root, with the given input after the root. -/
def replay (g : Grammar) (root : Root) (state : StateId) (rest : Word) (steps : List Step) :
    Analysis :=
  steps.foldl (fun a s => a.extend g s.realization s.target) (begin root state rest)

@[simp]
theorem replay_nil (root : Root) (state : StateId) (rest : Word) :
    replay g root state rest [] = begin root state rest := rfl

theorem replay_append_singleton (root : Root) (state : StateId) (rest : Word) (steps : List Step)
    (s : Step) :
    replay g root state rest (steps ++ [s]) =
      (replay g root state rest steps).extend g s.realization s.target := by
  simp [replay]

/-- A step of a replay begins a derivation if its source is derivational. -/
theorem derives_of_mem_replay {root : Root} {state : StateId} {rest : Word} {steps : List Step}
    {s : Step} (hs : s ∈ (replay g root state rest steps).steps) :
    s.derives = (g.state s.source).isDerivational := by
  induction steps using List.reverseRecOn with
  | nil => cases hs
  | append_singleton steps t ih =>
    rw [replay_append_singleton, steps_extend, List.mem_append, List.mem_singleton] at hs
    rcases hs with hs | rfl
    · exact ih hs
    · rfl

/-- The same analysis with other input ahead. -/
def withRemaining (a : Analysis) (rest : Word) : Analysis := { a with remaining := rest }

theorem extend_withRemaining (rest : Word) :
    (a.withRemaining rest).extend g r target =
      (a.extend g r target).withRemaining (rest.drop r.text.length) := rfl

/-- An analysis that its own steps lead to from its root, on any input. -/
structure IsTrace (g : Grammar) (a : Analysis) : Prop where
  replayed : ∀ rest, replay g a.root a.rootState rest a.steps =
    a.withRemaining (rest.drop (Step.texts a.steps).length)
  path : Step.Path a.rootState a.steps a.state
  surface : a.surface = a.root.surface ++ Step.texts a.steps

theorem isTrace_begin (root : Root) (state : StateId) (rest : Word) :
    (begin root state rest).IsTrace g where
  replayed _ := rfl
  path := rfl
  surface := by simp [begin, Step.texts]

theorem IsTrace.extend (h : a.IsTrace g) : (a.extend g r target).IsTrace g where
  replayed rest := by
    have hlast : a.nextStep g r target = ⟨a.state, r, target, (g.state a.state).isDerivational⟩ :=
      rfl
    simp only [root_extend, rootState_extend, steps_extend, replay_append_singleton, h.replayed,
      extend_withRemaining, List.drop_drop, Step.texts_append, List.length_append,
      Step.texts_singleton, hlast]
  path := Step.path_append_singleton.mpr ⟨h.path, rfl⟩
  surface := by
    simp only [surface_extend, root_extend, steps_extend, Step.texts_append, Step.texts_singleton,
      h.surface, List.append_assoc]
    rfl

/-- The lexeme attributes of a trace are those that its steps leave of the attributes of its
    lexeme. -/
theorem IsTrace.lexemeAttributes_eq (h : a.IsTrace g) :
    a.lexemeAttributes = lexemeView a.root.lexeme.attributes a.steps (g.state a.state) := by
  have hreplay := h.replayed []
  obtain hnil | ⟨before, s, hsteps⟩ := a.steps.eq_nil_or_concat
  · rw [hnil, replay_nil] at hreplay
    rw [hnil]
    exact (congrArg lexemeAttributes hreplay).symm
  · -- After a step the attributes are computed anew, and the step is the last one of the trace.
    have hextend : ∀ b : Analysis, b.extend g s.realization s.target = a.withRemaining [] →
        a.lexemeAttributes = lexemeView a.root.lexeme.attributes a.steps (g.state a.state) := by
      intro b hb
      change (a.withRemaining []).lexemeAttributes =
        lexemeView (a.withRemaining []).root.lexeme.attributes (a.withRemaining []).steps
          (g.state (a.withRemaining []).state)
      rw [← hb]
      rfl
    rw [hsteps, List.concat_eq_append, replay_append_singleton, List.drop_nil] at hreplay
    exact hextend _ hreplay

theorem IsTrace.withRemaining (h : a.IsTrace g) (rest : Word) : (a.withRemaining rest).IsTrace g :=
  ⟨h.replayed, h.path, h.surface⟩

/-- The analysis at the start of an input is the same one with the input after it ahead. -/
theorem rebase_eq_some_iff {b : Analysis} {input : Word} :
    a.rebase input = some b ↔
      a.surface <+: input ∧ b = a.withRemaining (input.drop a.surface.length) := by
  unfold rebase
  by_cases h : a.surface <+: input
  · simp [List.isPrefixOf_iff_prefix.mpr h, h, withRemaining, eq_comm]
  · simp [mt List.isPrefixOf_iff_prefix.mp h, h]

/-- A trace that reads the beginning of a word and has the rest of the word ahead. -/
structure Reads (g : Grammar) (word : Word) (a : Analysis) : Prop where
  trace : a.IsTrace g
  word : a.surface ++ a.remaining = word

theorem reads_begin (root : Root) (state : StateId) (rest : Word) :
    (begin root state rest).Reads g (root.surface ++ rest) :=
  ⟨isTrace_begin root state rest, rfl⟩

theorem Reads.extend {word : Word} (h : a.Reads g word) (hr : r.text <+: a.remaining) :
    (a.extend g r target).Reads g word := by
  obtain ⟨rest, hrest⟩ := hr
  refine ⟨h.trace.extend, ?_⟩
  rw [surface_extend, remaining_extend, ← hrest, List.drop_left, List.append_assoc, hrest]
  exact h.word

theorem IsTrace.reads_rebase {b : Analysis} {word : Word} (h : a.IsTrace g)
    (hb : a.rebase word = some b) : b.Reads g word := by
  obtain ⟨hbegins, rfl⟩ := rebase_eq_some_iff.mp hb
  refine ⟨h.withRemaining _, ?_⟩
  exact List.prefix_iff_eq_append.mp hbegins

/-- The replay of an analysis on the word it reads is the analysis itself. -/
theorem Reads.replay_eq {word : Word} (h : a.Reads g word) :
    replay g a.root a.rootState (word.drop a.root.surface.length) a.steps = a := by
  have hrest : (word.drop a.root.surface.length).drop (Step.texts a.steps).length
      = a.remaining := by
    rw [List.drop_drop, ← List.length_append, ← h.trace.surface, ← h.word, List.drop_left]
  rw [h.trace.replayed, hrest]
  rfl

end Analysis

end TurkishMorphology
