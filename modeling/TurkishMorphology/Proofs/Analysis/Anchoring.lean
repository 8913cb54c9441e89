import TurkishMorphology.Proofs.Analysis.Irregular
import TurkishMorphology.Proofs.Analysis.Recomputation
/-!
# Anchoring fixed paths

A fixed path is made on empty input, of which nothing can be read, and is put at the start of a word
only when it is used. Nothing is lost by that: what a step makes of an analysis does not depend on
the input ahead, so at the start of a word the path is the analysis that takes the same steps from
its root with the rest of the word ahead, and whatever comes next goes on from there alike.

## Main statements

- `Analysis.extendAll_withRemaining` — other input ahead stays ahead, less what was added
- `FixedPaths.follow_eq` — a path is followed by resolving its steps and adding them
- `FixedPaths.rebase_path` — a path at the start of a word is the walk through the word
-/

namespace TurkishMorphology

namespace Analysis

variable {g : Grammar}

theorem extendAll_append (a : Analysis) (moves later : List (Realization × StateId)) :
    a.extendAll g (moves ++ later) = (a.extendAll g moves).extendAll g later :=
  List.foldl_append ..

theorem extendAll_withRemaining (a : Analysis) (rest : Word)
    (moves : List (Realization × StateId)) :
    (a.withRemaining rest).extendAll g moves =
      (a.extendAll g moves).withRemaining (rest.drop (moves.flatMap (·.1.text)).length) := by
  induction moves using List.reverseRecOn with
  | nil => rfl
  | append_singleton moves m ih =>
    rw [extendAll_concat, ih, extend_withRemaining, extendAll_concat, List.flatMap_append,
      List.flatMap_singleton, List.length_append, List.drop_drop]

theorem withRemaining_begin (root : Root) (state : StateId) (rest rest' : Word) :
    (begin root state rest).withRemaining rest' = begin root state rest' := rfl

/-- At the start of a word, what was extended from a root on empty input is what is extended from
    it with the rest of the word ahead. -/
theorem rebase_extendAll_begin {root : Root} {state : StateId}
    {moves : List (Realization × StateId)} {word : Word} {b : Analysis} :
    ((begin root state []).extendAll g moves).rebase word = some b ↔
      ((begin root state []).extendAll g moves).surface <+: word ∧
        b = (begin root state (word.drop root.surface.length)).extendAll g moves := by
  have hsurface : ((begin root state []).extendAll g moves).surface =
      root.surface ++ moves.flatMap (·.1.text) :=
    ((isComputed_begin g root state []).extendAll moves).surface
  have hsame : (begin root state (word.drop root.surface.length)).extendAll g moves =
      ((begin root state []).extendAll g moves).withRemaining
        (word.drop ((begin root state []).extendAll g moves).surface.length) := by
    rw [hsurface, ← withRemaining_begin root state [], extendAll_withRemaining, List.drop_drop,
      List.length_append]
  rw [rebase_eq_some_iff, hsame]

end Analysis

namespace FixedPaths

variable {g : Grammar}

/-- Following a path resolves its steps and adds them one after the other. -/
theorem follow_eq (a : Analysis) (steps : List PathStep) :
    follow g a steps = (steps.mapM (PathStep.resolve g)).map (a.extendAll g) := by
  induction steps generalizing a with
  | nil => rfl
  | cons s rest ih =>
    rw [List.mapM_cons, follow]
    cases s.resolve g with
    | error e => rfl
    | ok m =>
      change follow g (a.extend g m.1 m.2) rest = _
      rw [ih]
      cases rest.mapM (PathStep.resolve g) <;> rfl

/-- A path whose steps all resolve can be made. It fits a word that starts with its surface, and
    no other; there it is the analysis that takes the same steps from the root with the rest of the
    word ahead, and it goes on as that analysis does. -/
theorem rebase_path (root : Root) (state : StateId) {steps : List PathStep}
    (h : ∀ s ∈ steps, ∃ m, s.resolve g = .ok m) :
    ∃ path moves, FixedPaths.path g root state steps = .ok path ∧
      List.Forall₂ (fun s m => s.resolve g = .ok m) steps moves ∧
      ∀ word b, (path.rebase word = some b ↔ path.surface <+: word ∧
          b = (Analysis.begin root state (word.drop root.surface.length)).extendAll g moves) ∧
        (path.rebase word = some b → ∀ later, b.extendAll g later =
          (Analysis.begin root state (word.drop root.surface.length)).extendAll g
            (moves ++ later)) := by
  obtain ⟨moves, hmoves⟩ := Except.exists_mapM_eq_ok h
  refine ⟨(Analysis.begin root state []).extendAll g moves, moves, ?_,
    Except.mapM_eq_ok_iff.mp hmoves, fun word b => ⟨Analysis.rebase_extendAll_begin, ?_⟩⟩
  · rw [path, follow_eq, hmoves]
    rfl
  · intro hb later
    rw [(Analysis.rebase_extendAll_begin.mp hb).2, Analysis.extendAll_append]

/-- The future of `demek` before a vowel, at the start of `diyeceğim`. -/
theorem rebase_path_demek :
    let root := Root.coined ['d', 'i'] ⟨"demek".toList, ['d', 'e'], .verb, none, ∅, .dictionary⟩
    let state := Turkish.StateName.verbRoot.id
    let steps : List PathStep := [Irregular.positive,
      ⟨"Fut", "+yAcAk".toList, "yeceğ".toList, "VERB_WITH_TENSE", true⟩]
    (∀ s ∈ steps, ∃ m, s.resolve Turkish.grammar = .ok m) ∧
      ∃ path moves, FixedPaths.path Turkish.grammar root state steps = .ok path ∧
        path.rebase "diyeceğim".toList = some
          ((Analysis.begin root state "yeceğim".toList).extendAll Turkish.grammar moves) := by
  intro root state steps
  have hsteps : ∀ s ∈ steps, ∃ m, s.resolve Turkish.grammar = .ok m :=
    Irregular.exists_resolve_eq_ok (Irregular.verbStem ['d', 'i'] ['d', 'e'])
      (List.mem_of_getElem? (i := 12) rfl) steps (List.mem_of_getElem? (i := 2) rfl)
  have hsurface : (FixedPaths.path Turkish.grammar root state steps).toOption.map
      Analysis.surface = some "diyeceğ".toList := by decide +kernel
  obtain ⟨path, moves, hpath, -, hanchored⟩ := rebase_path root state hsteps
  rw [hpath] at hsurface
  have hfits : path.surface <+: "diyeceğim".toList := by
    rw [show path.surface = "diyeceğ".toList from Option.some.inj hsurface]
    decide
  exact ⟨hsteps, path, moves, hpath, (hanchored _ _).1.mpr ⟨hfits, rfl⟩⟩

end FixedPaths

end TurkishMorphology
