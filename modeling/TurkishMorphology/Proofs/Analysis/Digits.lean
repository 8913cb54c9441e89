import TurkishMorphology.Proofs.Analysis.Prediction
/-!
# Suffixes after digits

A number in digits starts with the attributes of the words that the digits are read as, and what its
suffixes make of them could be computed step by step, as if the words were written out. An analysis
does not compute it so: as soon as a letter is added, it reads its attributes off the surface, which
begins with the digits. The two agree as long as what is added has a vowel, or no letter at all.
They differ after suffixes without a vowel: `2'm` has no vowel to harmonise with, `ikim` has one.

## Main statements

- `Analysis.attributes_after_digits` — when the two agree for a number
- `Analysis.exists_number_out_of_harmony` — a number for which they do not
-/

namespace TurkishMorphology

namespace Analysis

variable {root : Root} {rest text : Word} {a : Analysis}

/-- The root of a number is spelled by its digits and sounds like the words they are read as. -/
theorem numeralRoot_eq {digits : Word} (htext : Numeral.ofDigits? digits = some text)
    (hroot : root ∈ RootSource.numeralRoots digits) :
    root.surface = digits ∧ root.attributes = Phonetics.ofWord text := by
  rw [RootSource.numeralRoots, htext] at hroot
  obtain rfl := List.mem_singleton.mp hroot
  simp [Root.numeral, Phonetics.ofSurface]

/-- After digits the attributes are those that the words they are read as would lead to, step by
    step, exactly if what was added has a vowel or has no letter at all. Otherwise only what was
    added counts. -/
theorem attributes_after_digits {digits : Word}
    (htext : Numeral.ofDigits? digits = some text) (hroot : root ∈ RootSource.numeralRoots digits)
    (ha : Relation.ReflTransGen (Takes Turkish.grammar)
      (begin root Turkish.StateName.numeralRoot.id rest) a) :
    (a.attributes = Step.attributesAfter (Phonetics.ofWord text) a.steps ↔
      a.added.hasVowel = true ∨ a.added.hasAlphanumeric = false) ∧
    (a.added.hasVowel = false → a.added.hasAlphanumeric = true →
      a.attributes = Phonetics.ofWord a.added) := by
  have hspoken : text.hasVowel = true := Numeral.hasVowel_of_ofDigits? htext
  have hne : text ≠ [] :=
    Word.ne_nil_of_hasAlphanumeric (Word.hasAlphanumeric_of_hasVowel hspoken)
  have hdigits : digits.lastVowel? = none :=
    Word.lastVowel?_eq_none_iff.mpr (Numeral.hasVowel_eq_false_of_ofDigits? htext)
  obtain ⟨hsurface, hstart⟩ := numeralRoot_eq htext hroot
  have hadded : a.added = Step.texts a.steps := by
    have htrace := (isTrace_begin (g := Turkish.grammar) root _ rest).reflTransGen ha
    rw [added, htrace.surface, List.drop_left]
  rw [attributesAfter_eq Turkish.speaksInside hne ha, attributes_eq ha, hstart, hsurface,
    ← hadded]
  cases hletters : a.added.hasAlphanumeric with
  | false => simp
  | true =>
    have hadded_ne : a.added ≠ [] := Word.ne_nil_of_hasAlphanumeric hletters
    simp only [if_true, Bool.true_eq_false, or_false, true_imp_iff]
    cases hvowel : a.added.hasVowel with
    | true => simpa using Phonetics.ofWord_append_congr hadded_ne (.inr hvowel)
    | false =>
      -- The words of the number have a vowel; the digits and what was added have none.
      have hown : Phonetics.ofWord (digits ++ a.added) = Phonetics.ofWord a.added :=
        Phonetics.ofWord_append_congr (v := []) hadded_ne (.inl hdigits)
      have hdiffers : Phonetics.ofWord a.added ≠ Phonetics.ofWord (text ++ a.added) := by
        intro hsame
        have hnone := congrArg (fun s => s.contains .hasNoVowel) hsame
        simp [Phonetics.contains_hasNoVowel_ofWord hadded_ne, hvowel, Word.hasVowel_append, hspoken,
          Phonetics.contains_hasNoVowel_ofWord (List.append_ne_nil_of_right_ne_nil text hadded_ne)]
          at hnone
      simp [hown, hdiffers]

/-- The step to a state with the first form of a suffix. -/
def firstForm (s : Turkish.SuffixName) (target : Turkish.StateName) : ForcedStep :=
  ⟨⟨s.firstForm⟩, target.id, s.entry.name⟩

/-- A number set off by an apostrophe becomes a noun, which takes the given possessive. -/
def numberSteps (possessive : Turkish.SuffixName) : List ForcedStep := [
  firstForm .numApos .numeralDeriv, firstForm .numZero .nounRoot,
  firstForm .a3sg .nounWithAgreement, firstForm possessive .nounWithPossession]

/-- The root of a number. -/
def numberRoot (digits : Word) : Root := (RootSource.numeralRoots digits).headD default

/-- In `3'ü` the accusative harmonises with `üç`. -/
theorem attributes_after_digits_accusative :
    Numeral.ofDigits? "3".toList = some "üç".toList ∧
      numberRoot "3".toList ∈ RootSource.numeralRoots "3".toList ∧
      ∃ a, Relation.ReflTransGen (Takes Turkish.grammar)
          (begin (numberRoot "3".toList) Turkish.StateName.numeralRoot.id "'ü".toList) a ∧
        a.added = "'ü".toList ∧
        a.attributes = Step.attributesAfter (Phonetics.ofWord "üç".toList) a.steps := by
  have htext : Numeral.ofDigits? "3".toList = some "üç".toList := by decide
  have hroot : numberRoot "3".toList ∈ RootSource.numeralRoots "3".toList := by decide
  obtain ⟨a, ha, hadded⟩ := Forcing.exists_takes_of_takeSteps (g := Turkish.grammar)
    (a := begin (numberRoot "3".toList) Turkish.StateName.numeralRoot.id "'ü".toList)
    (numberSteps .pnon ++ [firstForm .acc .nounWithCase]) (fun b => b.added = "'ü".toList)
    (by decide +kernel) (by decide +kernel)
  have hadded : a.added = "'ü".toList := of_decide_eq_true hadded
  have hvowel : a.added.hasVowel = true := by
    rw [hadded]
    decide
  exact ⟨htext, hroot, a, ha, hadded, (attributes_after_digits htext hroot ha).1.mpr (.inl hvowel)⟩

/-- After `2'm` the accusative is `ı`, although it would be `i` after the words: the attributes say
    that there is no vowel, although `iki` has one. -/
theorem exists_number_out_of_harmony :
    Numeral.ofDigits? "2".toList = some "iki".toList ∧
      numberRoot "2".toList ∈ RootSource.numeralRoots "2".toList ∧
      ∃ a, Relation.ReflTransGen (Takes Turkish.grammar)
          (begin (numberRoot "2".toList) Turkish.StateName.numeralRoot.id "'mı".toList) a ∧
        a.added = "'m".toList ∧
        a.attributes ≠ Step.attributesAfter (Phonetics.ofWord "iki".toList) a.steps ∧
        (Template.of ['+', 'y', 'I']).resolve a.attributes = ['ı'] ∧
        (Template.of ['+', 'y', 'I']).resolve
          (Step.attributesAfter (Phonetics.ofWord "iki".toList) a.steps) = ['i'] := by
  obtain ⟨a, ha, htest⟩ := Forcing.exists_takes_of_takeSteps (g := Turkish.grammar)
    (a := begin (numberRoot "2".toList) Turkish.StateName.numeralRoot.id "'mı".toList)
    (numberSteps .p1sg)
    (fun b => decide (b.added = "'m".toList
      ∧ b.attributes ≠ Step.attributesAfter (Phonetics.ofWord "iki".toList) b.steps
      ∧ (Template.of ['+', 'y', 'I']).resolve b.attributes = ['ı']
      ∧ (Template.of ['+', 'y', 'I']).resolve
        (Step.attributesAfter (Phonetics.ofWord "iki".toList) b.steps) = ['i']))
    (by decide +kernel) (by decide +kernel)
  exact ⟨by decide, by decide, a, ha, of_decide_eq_true htest⟩

end Analysis

end TurkishMorphology
