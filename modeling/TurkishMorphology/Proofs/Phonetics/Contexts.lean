import TurkishMorphology.Phonetics.Validity
import TurkishMorphology.Phonetics.Context
import TurkishMorphology.Proofs.Word
/-!
# Every word has a context

The attributes of a word are what its last vowel and its last letter report, and there are few
reports of each kind. So the attributes of a word that is not empty are one of the contexts,
whatever characters it is made of, and they stay one when harmony is inverted.

Only the end of a word counts: words with the same last letter and the same last vowel have the same
attributes. This is why the attributes after something is appended can be computed from those
before it.

## Main definitions

- `Phonetics.vowelReports`, `Phonetics.letterReports` — what a last vowel and a last letter can
  contribute to the attributes
- `Phonetics.exemplars` — words for all contexts

## Main statements

- `Phonetics.ofWord_mem_contexts`, `Phonetics.ofSurface_mem_contexts` — words have contexts
- `Phonetics.exists_ofWord_eq` — contexts have words
- `Phonetics.after_mem_contexts` — appending does not lead out of the contexts
- `Phonetics.ofWord_congr` — only the end of a word counts
- `Phonetics.after_ofWord` — what appending does to the attributes
-/

namespace TurkishMorphology.Phonetics

variable {v w : Word} {c : Char}

/-- What a last vowel can contribute. -/
def vowelReports : List (List PhoneticAttribute) := [
  [.lastVowelRounded, .lastVowelFrontal], [.lastVowelRounded, .lastVowelBack],
  [.lastVowelUnrounded, .lastVowelFrontal], [.lastVowelUnrounded, .lastVowelBack]]

/-- What a last letter that is no vowel can contribute. -/
def consonantReports : List (List PhoneticAttribute) := [
  [.lastLetterConsonant, .lastLetterNotVoiceless], [.lastLetterConsonant, .lastLetterVoiceless],
  [.lastLetterConsonant, .lastLetterVoiceless, .lastLetterVoicelessStop]]

/-- What a last letter can contribute. -/
def letterReports : List (List PhoneticAttribute) :=
  [.lastLetterVowel, .lastLetterNotVoiceless] :: consonantReports

theorem vowelAttributes_mem (c : Char) : vowelAttributes (some c) ∈ vowelReports := by
  simp only [vowelAttributes]
  cases (Alphabet.letter c).isRounded <;> cases (Alphabet.letter c).isFrontal <;> decide

theorem letterAttributes_mem_of_isVowel_eq_false (h : Alphabet.isVowel c = false) :
    letterAttributes c ∈ consonantReports := by
  rw [Alphabet.isVowel] at h
  simp only [letterAttributes, h]
  cases (Alphabet.letter c).isVoiceless <;> cases (Alphabet.letter c).isContinuant <;> decide

theorem letterAttributes_mem (c : Char) : letterAttributes c ∈ letterReports := by
  cases h : Alphabet.isVowel c with
  | false => exact List.mem_cons_of_mem _ (letterAttributes_mem_of_isVowel_eq_false h)
  | true =>
    -- The sound of a vowel has no voice to speak of.
    have hvoice : (Alphabet.letter c).isVoiceless = false := by
      unfold Alphabet.isVowel Letter.isVowel at h
      unfold Letter.isVoiceless
      cases hsound : (Alphabet.letter c).sound <;> simp_all
    rw [Alphabet.isVowel] at h
    simp [letterAttributes, h, hvoice, letterReports]

/-- Only the last letter and the last vowel of a word count. -/
theorem ofWord_congr (hlast : v.getLast? = w.getLast?) (hvowel : v.lastVowel? = w.lastVowel?) :
    ofWord v = ofWord w := by
  unfold ofWord
  rw [hlast, hvowel]

theorem ofWord_eq (h : w ≠ []) :
    ofWord w = .ofList (vowelAttributes w.lastVowel? ++ letterAttributes (w.getLast h)) := by
  rw [ofWord, List.getLast?_eq_some_getLast h]

theorem letterAttributes_getLast_mem (h : w ≠ []) (hnone : w.lastVowel? = none) :
    letterAttributes (w.getLast h) ∈ consonantReports := by
  refine letterAttributes_mem_of_isVowel_eq_false ?_
  have hall := Word.lastVowel?_eq_none_iff.mp hnone
  simpa using List.any_eq_false.mp hall _ (List.getLast_mem h)

/-- The attributes of a word that is not empty are one of the contexts. -/
theorem ofWord_mem_contexts (h : w ≠ []) : ofWord w ∈ contexts := by
  have hvowel : ∀ vs ∈ vowelReports, ∀ ls ∈ letterReports, .ofList (vs ++ ls) ∈ contexts := by
    decide +kernel
  have hnone : ∀ ls ∈ consonantReports, .ofList (.hasNoVowel :: ls) ∈ contexts := by
    decide +kernel
  rw [ofWord_eq h]
  cases hlast : w.lastVowel? with
  | none => exact hnone _ (letterAttributes_getLast_mem h hlast)
  | some d => exact hvowel _ (vowelAttributes_mem d) _ (letterAttributes_mem _)

theorem ofSurface_mem_contexts (h : w ≠ []) (lexeme : LexemeAttributes) :
    ofSurface w lexeme ∈ contexts := by
  have hinvert : ∀ s ∈ contexts, invert s ∈ contexts := by decide +kernel
  unfold ofSurface
  split
  · exact hinvert _ (ofWord_mem_contexts h)
  · exact ofWord_mem_contexts h

theorem contains_hasNoVowel_ofWord (h : w ≠ []) :
    (ofWord w).contains .hasNoVowel = !w.hasVowel := by
  have hvowel : ∀ vs ∈ vowelReports, ∀ ls ∈ letterReports,
      (FlagSet.ofList (vs ++ ls)).contains .hasNoVowel = false := by decide
  rw [ofWord_eq h, Word.hasVowel_eq_isSome_lastVowel?]
  cases w.lastVowel? with
  | none => simp [vowelAttributes]
  | some d => exact hvowel _ (vowelAttributes_mem d) _ (letterAttributes_mem _)

/-- What stands before the last vowel of a word does not count. -/
theorem ofWord_append_congr {u : Word} (hw : w ≠ [])
    (h : u.lastVowel? = v.lastVowel? ∨ w.hasVowel = true) : ofWord (u ++ w) = ofWord (v ++ w) := by
  refine ofWord_congr ?_ ?_
  · rw [List.getLast?_append, List.getLast?_append, List.getLast?_eq_some_getLast hw,
      Option.some_or, Option.some_or]
  · rw [Word.lastVowel?_append, Word.lastVowel?_append]
    rcases h with h | h
    · rw [h]
    · rw [Word.hasVowel_eq_isSome_lastVowel?, Option.isSome_iff_exists] at h
      obtain ⟨d, hd⟩ := h
      rw [hd, Option.some_or, Option.some_or]

/-- A text without a vowel leaves the last vowel of the word before it as it is. -/
theorem foldl_insert_vowelFacts (hw : w ≠ []) (hv : v ≠ []) (hvowel : v.lastVowel? = none)
    {d : Char} (hd : w.lastVowel? = some d) :
    (vowelFacts.filter (ofWord w).contains).foldl FlagSet.insert
      ((ofWord v).erase .hasNoVowel) = ofWord (w ++ v) := by
  have hkeep : ∀ vs ∈ vowelReports, ∀ before ∈ letterReports, ∀ ls ∈ consonantReports,
      (vowelFacts.filter (FlagSet.ofList (vs ++ before)).contains).foldl FlagSet.insert
        ((FlagSet.ofList (.hasNoVowel :: ls)).erase .hasNoVowel) = .ofList (vs ++ ls) := by
    decide
  rw [ofWord_eq hw, ofWord_eq hv, ofWord_eq (List.append_ne_nil_of_right_ne_nil w hv),
    Word.lastVowel?_append, List.getLast_append_of_ne_nil _ hv, hvowel, Option.none_or, hd]
  exact hkeep _ (vowelAttributes_mem d) _ (letterAttributes_mem _) _
    (letterAttributes_getLast_mem hv hvowel)

theorem after_eq_of_hasAlphanumeric_eq_false (h : v.hasAlphanumeric = false)
    (previous : PhoneticAttributes) : after previous v = previous := by
  simp [after, h]

/-- The attributes after a text with letters or digits is appended to a word are those of the
    longer word. -/
theorem after_ofWord (hw : w ≠ []) (hv : v.hasAlphanumeric = true) :
    after (ofWord w) v = ofWord (w ++ v) := by
  have hne : v ≠ [] := Word.ne_nil_of_hasAlphanumeric hv
  simp only [after, Word.isBlank_eq_false hv, hv, Bool.not_true, Bool.or_self, Bool.false_eq_true,
    if_false, contains_hasNoVowel_ofWord hne, contains_hasNoVowel_ofWord hw, Bool.not_not,
    Word.hasVowel_eq_isSome_lastVowel?]
  cases hvowel : v.lastVowel? with
  | some c =>
    have hhas : v.hasVowel = true := by rw [Word.hasVowel_eq_isSome_lastVowel?, hvowel]; rfl
    exact ofWord_append_congr (u := []) hne (.inr hhas)
  | none =>
    cases hbefore : w.lastVowel? with
    | none => exact ofWord_append_congr (u := []) hne (.inl hbefore.symm)
    | some d => exact foldl_insert_vowelFacts hw hne hvowel hbefore

/-- Words that end in a vowel, a voiced letter, a voiceless one and a stop, after each kind of last
    vowel and after none. -/
def exemplars : List Word :=
  [['a'], ['e'], ['o'], ['ö']].flatMap (fun vowel => vowel :: [vowel ++ ['m'], vowel ++ ['s'],
    vowel ++ ['t']]) ++ [['m'], ['s'], ['t']]

/-- Every context is the one of some word, so what holds after words holds in all contexts. -/
theorem exists_ofWord_eq {context : PhoneticAttributes} (h : context ∈ contexts) :
    ∃ w : Word, w ≠ [] ∧ ofWord w = context := by
  have hall : ∀ a ∈ contexts, (exemplars.any fun w => !w.isEmpty && ofWord w = a) = true := by
    decide +kernel
  obtain ⟨w, -, hw⟩ := List.any_eq_true.mp (hall context h)
  obtain ⟨hne, hof⟩ : w ≠ [] ∧ ofWord w = context := by simpa using hw
  exact ⟨w, hne, hof⟩

/-- Nothing that is appended leads out of the contexts. -/
theorem after_mem_contexts {context : PhoneticAttributes} (h : context ∈ contexts) (text : Word) :
    after context text ∈ contexts := by
  obtain ⟨w, hw, rfl⟩ := exists_ofWord_eq h
  by_cases htext : text.hasAlphanumeric = true
  · rw [after_ofWord hw htext]
    exact ofWord_mem_contexts (List.append_ne_nil_of_left_ne_nil hw text)
  · rw [after_eq_of_hasAlphanumeric_eq_false (by simpa using htext)]
    exact h

end TurkishMorphology.Phonetics
