import TurkishMorphology.Proofs.Analysis.Expectation
import TurkishMorphology.Proofs.Analysis.Irregular
import TurkishMorphology.Proofs.Lexicon.RootIndex
/-!
# Stops that stay voiceless before a vowel

A voiceless stop is voiced before a vowel, and the gates refuse a vowel after a stop that is not.
They let it pass in two cases only: the root keeps its stops and nothing visible was added to it, or
a verb is left, through a derivation or after a step without a sound. What the gates look at is
computed anew after every step from the whole of the steps, so the two cases can be read off the
steps. Fixed paths pass no gates, but none of them puts a vowel after a stop.

## Main definitions

- `Step.addsVowelToStop` — a vowel is added right after a voiceless stop
- `Step.LeavesStop` — the two cases in which that may be
- `Analysis.VoicesStops` — it happens in no other case

## Main statements

- `Analysis.contains_noVoicing_lexemeView_iff` — when the gates let a vowel follow
- `Analysis.VoicesStops.extend` — steps along the grammar voice stops
- `FixedPaths.IsPathOf.voicesStops` — fixed paths do
-/

namespace TurkishMorphology

def voicelessStops : List Char := ['p', 'ç', 't', 'k', 'P', 'Ç', 'T', 'K']

theorem isVoicelessStop_of_mem_voicelessStops {c : Char} (hc : c ∈ voicelessStops) :
    (Alphabet.letter c).isVoicelessStop = true := by
  have hall : voicelessStops.all (fun c => (Alphabet.letter c).isVoicelessStop) = true := by decide
  exact List.all_eq_true.mp hall c hc

namespace Step

/-- Whether the step adds a vowel right after a voiceless stop. -/
def addsVowelToStop (surface : Word) (s : Step) : Bool :=
  s.startsWithVowel && surface.getLast?.any fun c => voicelessStops.contains c

/-- What lets a stop stand before the vowel of a step: the root keeps its stops and nothing visible
    was added to it, or something was, and the step leaves a verb that is about to be derived from
    or that a blank step led to. -/
inductive LeavesStop (g : Grammar) (root : Root) (before : List Step) (s : Step) : Prop
  | root (blank : before.all isBlank = true) (keeps : root.lexeme.has .noVoicing = true)
  | verb (spoken : before.all isBlank = false) (pos : (g.state s.source).pos = .verb)
    (left : (g.state s.source).isDerivational = true ∨ before.getLast?.any isBlank = true)

/-- Whether none of the steps after a surface puts a vowel after a stop. -/
def voiceStops : Word → List Step → Bool
  | _, [] => true
  | surface, s :: rest =>
    !s.addsVowelToStop surface && voiceStops (surface ++ s.realization.text) rest

theorem addsVowelToStop_eq_false_of_voiceStops {surface : Word} {steps : List Step}
    (h : voiceStops surface steps = true) :
    Each (fun before s => s.addsVowelToStop (surface ++ texts before) = false) steps := by
  intro before s after hsteps
  subst hsteps
  induction before generalizing surface with
  | nil =>
    rw [List.nil_append, voiceStops, Bool.and_eq_true, Bool.not_eq_true'] at h
    simpa [texts] using h.1
  | cons t rest ih =>
    rw [List.cons_append, voiceStops, Bool.and_eq_true] at h
    simpa [texts] using ih h.2

end Step

namespace Analysis

variable {g : Grammar} {a b : Analysis} {r : Realization} {target : StateId}

/-- The lexeme attributes forbid voicing in two cases. -/
theorem contains_noVoicing_lexemeView_iff {lexeme : LexemeAttributes} {steps : List Step}
    {s : State} :
    (lexemeView lexeme steps s).contains .noVoicing = true ↔
      steps.all Step.isBlank = true ∧ lexeme.contains .noVoicing = true ∨
      steps.all Step.isBlank = false ∧ s.pos = .verb ∧
        (s.isDerivational = true ∨ steps.getLast?.any Step.isBlank = true) := by
  rw [lexemeView]
  cases hblank : steps.all Step.isBlank with
  | true => simp
  | false =>
    by_cases hverb : s.pos = .verb ∧
        (s.isDerivational = true ∨ steps.getLast?.any Step.isBlank = true)
    · rw [if_neg Bool.false_ne_true, if_pos hverb]
      simp only [Bool.false_eq_true, false_and, false_or, hverb, and_self, iff_true]
      decide
    · rw [if_neg Bool.false_ne_true, if_neg hverb]
      simp only [Bool.false_eq_true, false_and, false_or, true_and, hverb, iff_false]
      decide

/-- A trace in which no step adds a vowel right after a voiceless stop, but for the two cases. -/
structure VoicesStops (g : Grammar) (a : Analysis) : Prop where
  trace : a.IsTrace g
  each : Step.Each (fun before s =>
    s.addsVowelToStop (a.root.surface ++ Step.texts before) = true →
      Step.LeavesStop g a.root before s) a.steps

theorem voicesStops_begin (root : Root) (state : StateId) (rest : Word) :
    (begin root state rest).VoicesStops g :=
  ⟨isTrace_begin root state rest, Step.each_nil⟩

theorem VoicesStops.withRemaining (h : a.VoicesStops g) (rest : Word) :
    (a.withRemaining rest).VoicesStops g :=
  ⟨h.trace.withRemaining rest, h.each⟩

/-- A realization that may follow a stop with a vowel does so in one of the two cases. -/
theorem leavesStop_of_mayFollow (h : a.IsTrace g) (hfollows : a.mayFollow r.text = true)
    (hstop : (a.nextStep g r target).addsVowelToStop a.surface = true) :
    Step.LeavesStop g a.root a.steps (a.nextStep g r target) := by
  rw [Step.addsVowelToStop, Bool.and_eq_true] at hstop
  obtain ⟨hvowel, hlast⟩ := hstop
  have hvowel : r.text.head?.any Alphabet.isVowel = true := hvowel
  have hends : a.surface.getLast?.any (fun c => (Alphabet.letter c).isVoicelessStop) = true := by
    obtain ⟨c, hc, hmem⟩ := (Option.any_eq_true ..).mp hlast
    rw [hc, Option.any_some]
    exact isVoicelessStop_of_mem_voicelessStops (by simpa using hmem)
  have hkept : a.lexemeAttributes.contains .noVoicing = true := by
    simpa [mayFollow, mustVoice, hvowel, hends] using hfollows
  rw [h.lexemeAttributes_eq, contains_noVoicing_lexemeView_iff] at hkept
  obtain ⟨hblank, hkeeps⟩ | ⟨hspoken, hpos, hleft⟩ := hkept
  · exact .root hblank hkeeps
  · exact .verb hspoken hpos hleft

theorem VoicesStops.extend (h : a.VoicesStops g) (hallows : a.Allows g r target) :
    (a.extend g r target).VoicesStops g := by
  refine ⟨h.trace.extend, Step.each_append_singleton.mpr ⟨h.each, fun hstop => ?_⟩⟩
  rw [root_extend, ← h.trace.surface] at hstop
  exact leavesStop_of_mayFollow h.trace hallows.follows hstop

theorem VoicesStops.reflTransGen (h : a.VoicesStops g)
    (hab : Relation.ReflTransGen (Takes g) a b) : b.VoicesStops g :=
  invariant_of_takes hab h fun _ _ _ hc _ hallows => hc.extend hallows

end Analysis

/-- No draft puts a vowel after a stop. -/
theorem Irregular.voiceStops : trailsPass (fun d => Step.voiceStops d.surface) = true := by
  decide +kernel

/-- Fixed paths voice stops, as none of them puts a vowel after one. -/
theorem FixedPaths.IsPathOf.voicesStops {lexicon : LexiconOptions} {lexemes : List Lexeme}
    {index : RootIndex} {root : Root} {path : Analysis}
    (h : IsPathOf Turkish.grammar index Irregular.drafts root path)
    (hindex : RootIndex.ofLexemes lexicon lexemes = .ok index) :
    path.VoicesStops Turkish.grammar := by
  obtain ⟨d, -, hroot, htrail⟩ := h.exists_draft_of_trailsPass Irregular.voiceStops
  have hsurface : path.root.surface = d.surface :=
    h.root_eq ▸ (RootIndex.exists_root_of_mem_get hindex hroot).1
  refine ⟨h.isTrace, fun before s after hsteps hstop => ?_⟩
  have hnone := Step.addsVowelToStop_eq_false_of_voiceStops htrail before s after hsteps
  rw [hsurface, hnone] at hstop
  cases hstop

end TurkishMorphology
