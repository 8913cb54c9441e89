import TurkishMorphology.Phonetics.Context
import Mathlib.Data.List.Forall2
/-!
# Words that sound alike

Phonetic attributes depend on the sounds of letters and not on the characters that write them. So
words that sound alike letter by letter have the same attributes; a word and its copy without
circumflexes do.

## Main definitions

- `Alphabet.SameSound` — characters that write the same sound
- `Word.SoundsLike` — words that sound alike letter by letter

## Main statements

- `Word.SoundsLike.ofSurface_eq` — words that sound alike have the same attributes
- `Word.soundsLike_withoutCircumflex` — a word sounds like its copy without circumflexes
-/

namespace TurkishMorphology

namespace Alphabet

/-- The characters write the same sound. -/
def SameSound (c d : Char) : Prop := (letter c).sound = (letter d).sound

variable {c d : Char}

theorem SameSound.isVowel_eq (h : SameSound c d) : isVowel c = isVowel d := by
  simp only [isVowel, Letter.isVowel]
  rw [h]

theorem SameSound.isVoiceless_eq (h : SameSound c d) :
    (letter c).isVoiceless = (letter d).isVoiceless := by
  simp only [Letter.isVoiceless]
  rw [h]

theorem SameSound.isContinuant_eq (h : SameSound c d) :
    (letter c).isContinuant = (letter d).isContinuant := by
  simp only [Letter.isContinuant]
  rw [h]

theorem SameSound.isVoicelessStop_eq (h : SameSound c d) :
    (letter c).isVoicelessStop = (letter d).isVoicelessStop := by
  rw [Letter.isVoicelessStop, Letter.isVoicelessStop, h.isVoiceless_eq, h.isContinuant_eq]

theorem SameSound.letterAttributes_eq (h : SameSound c d) :
    Phonetics.letterAttributes c = Phonetics.letterAttributes d := by
  have hvowel : (letter c).isVowel = (letter d).isVowel := h.isVowel_eq
  simp only [Phonetics.letterAttributes, hvowel, h.isVoiceless_eq, h.isContinuant_eq]

theorem SameSound.vowelAttributes_eq (h : SameSound c d) :
    Phonetics.vowelAttributes (some c) = Phonetics.vowelAttributes (some d) := by
  have hrounded : (letter c).isRounded = (letter d).isRounded := by
    simp only [Letter.isRounded]
    rw [h]
  have hfrontal : (letter c).isFrontal = (letter d).isFrontal := by
    simp only [Letter.isFrontal]
    rw [h]
  simp only [Phonetics.vowelAttributes, hrounded, hfrontal]

/-- A character is left as it is, or it is a circumflexed vowel that is replaced. -/
theorem withoutCircumflex_cases (c : Char) :
    hasCircumflex c = false ∧ withoutCircumflex c = c ∨
      hasCircumflex c = true ∧ (c, withoutCircumflex c) ∈ circumflexPairs := by
  unfold withoutCircumflex
  cases hlookup : circumflexPairs.lookup c with
  | none =>
    refine .inl ⟨?_, rfl⟩
    rw [hasCircumflex, List.any_eq_false]
    intro p hp hpc
    have hne := List.lookup_eq_none_iff.mp hlookup p hp
    rw [beq_iff_eq] at hpc
    simp [hpc] at hne
  | some d =>
    obtain ⟨before, after, hpairs, -⟩ := List.lookup_eq_some_iff.mp hlookup
    have hmem : (c, d) ∈ circumflexPairs := by
      rw [hpairs]
      exact List.mem_append_right _ (List.mem_cons_self ..)
    exact .inr ⟨List.any_eq_true.mpr ⟨_, hmem, beq_self_eq_true c⟩, hmem⟩

/-- The plain vowel sounds like the circumflexed one. -/
theorem sameSound_withoutCircumflex (c : Char) : SameSound c (withoutCircumflex c) := by
  have hpairs : ∀ p ∈ circumflexPairs, (letter p.1).sound = (letter p.2).sound := by
    decide
  rcases withoutCircumflex_cases c with ⟨-, hsame⟩ | ⟨-, hpair⟩
  · rw [hsame]
    rfl
  · exact hpairs _ hpair

theorem hasCircumflex_withoutCircumflex (c : Char) :
    hasCircumflex (withoutCircumflex c) = false := by
  have hpairs : ∀ p ∈ circumflexPairs, hasCircumflex p.2 = false := by decide
  rcases withoutCircumflex_cases c with ⟨hplain, hsame⟩ | ⟨-, hpair⟩
  · rw [hsame, hplain]
  · exact hpairs _ hpair

end Alphabet

namespace Word

open Alphabet

/-- The words sound alike letter by letter. -/
def SoundsLike (v w : Word) : Prop := List.Forall₂ SameSound v w

variable {v w : Word}

theorem soundsLike_refl (w : Word) : SoundsLike w w := List.forall₂_same.mpr fun _ _ => rfl

theorem SoundsLike.append {v' w' : Word} (h : SoundsLike v w) (h' : SoundsLike v' w') :
    SoundsLike (v ++ v') (w ++ w') :=
  List.rel_append h h'

theorem soundsLike_withoutCircumflex (w : Word) : SoundsLike w w.withoutCircumflex :=
  List.forall₂_map_right_iff.mpr <|
    List.forall₂_same.mpr fun c _ => sameSound_withoutCircumflex c

/-- The last characters of words that sound alike sound alike. -/
theorem SoundsLike.getLast? (h : SoundsLike v w) :
    v = [] ∧ w = [] ∨ ∃ c d, v.getLast? = some c ∧ w.getLast? = some d ∧ SameSound c d := by
  have hreverse : List.Forall₂ SameSound v.reverse w.reverse := List.forall₂_reverse_iff.mpr h
  rw [← List.head?_reverse, ← List.head?_reverse]
  generalize hv : v.reverse = x, hw : w.reverse = y at hreverse
  cases hreverse with
  | nil => exact .inl ⟨List.reverse_eq_nil_iff.mp hv, List.reverse_eq_nil_iff.mp hw⟩
  | cons hcd _ => exact .inr ⟨_, _, rfl, rfl, hcd⟩

/-- The last vowels of words that sound alike sound alike. -/
theorem SoundsLike.lastVowel? (h : SoundsLike v w) :
    Phonetics.vowelAttributes v.lastVowel? = Phonetics.vowelAttributes w.lastVowel? := by
  have hreverse : List.Forall₂ SameSound v.reverse w.reverse := List.forall₂_reverse_iff.mpr h
  unfold Word.lastVowel?
  generalize v.reverse = x, w.reverse = y at hreverse
  induction hreverse with
  | nil => rfl
  | @cons c d _ _ hcd _ ih =>
    rw [List.find?_cons, List.find?_cons, hcd.isVowel_eq]
    cases isVowel d with
    | true => exact hcd.vowelAttributes_eq
    | false => exact ih

theorem SoundsLike.ofWord_eq (h : SoundsLike v w) : Phonetics.ofWord v = Phonetics.ofWord w := by
  unfold Phonetics.ofWord
  rcases h.getLast? with ⟨rfl, rfl⟩ | ⟨c, d, hv, hw, hcd⟩
  · rfl
  · simp only [hv, hw, h.lastVowel?, hcd.letterAttributes_eq]

/-- Words that sound alike have the same attributes. -/
theorem SoundsLike.ofSurface_eq (h : SoundsLike v w) (lexeme : LexemeAttributes) :
    Phonetics.ofSurface v lexeme = Phonetics.ofSurface w lexeme := by
  rw [Phonetics.ofSurface, Phonetics.ofSurface, h.ofWord_eq]

theorem hasCircumflex_of_mem_withoutCircumflex {c : Char} (h : c ∈ w.withoutCircumflex) :
    hasCircumflex c = false := by
  obtain ⟨d, -, rfl⟩ := List.mem_map.mp h
  exact hasCircumflex_withoutCircumflex d

end Word

end TurkishMorphology
