import TurkishMorphology.Word
/-!
# What words are made of

Vowels are letters, and neither spaces nor digits are vowels. So a word with a vowel has a letter or
digit, and a word with a letter or digit is not blank.

## Main statements

- `Text.isAlphanumeric_of_isSpace` — white space is neither letter nor digit
- `Word.isBlank_eq_false`, `Word.hasAlphanumeric_of_hasVowel` — what a word has if it has more
-/

namespace TurkishMorphology

theorem Text.isAlphanumeric_of_isSpace {c : Char} (h : isSpace c = true) :
    isAlphanumeric c = false := by
  have hall : spaceTable.all (fun r => (List.range' r.first (r.last + 1 - r.first)).all fun n =>
      !CodeRange.covers alphanumericTable n) = true := by decide +kernel
  obtain ⟨r, hcovering⟩ := Option.isSome_iff_exists.mp h
  obtain ⟨hr, hholds⟩ := CodeRange.mem_of_covering? hcovering
  have hbounds : r.first ≤ c.toNat ∧ c.toNat ≤ r.last := by
    simp only [CodeRange.holds, Bool.and_eq_true, decide_eq_true_eq] at hholds
    exact hholds.1
  have hn := List.all_eq_true.mp (List.all_eq_true.mp hall r hr) c.toNat
    (List.mem_range'_1.mpr ⟨hbounds.1, by omega⟩)
  simpa [isAlphanumeric] using hn

namespace Alphabet

variable {c : Char}

/-- A vowel is written by one of the letters that are vowels. -/
theorem exists_letter_of_isVowel (h : isVowel c = true) :
    ∃ l ∈ letters, l.isVowel = true ∧ (l.char = c ∨ l.upper = c) := by
  unfold isVowel letter at h
  cases hl : letter? c with
  | none =>
    rw [hl] at h
    cases h
  | some l =>
    rw [hl] at h
    obtain ⟨hmem, hwrites⟩ := mem_of_letter? hl
    exact ⟨l, hmem, h, hwrites⟩

theorem isAlphanumeric_of_isVowel (h : isVowel c = true) : Text.isAlphanumeric c = true := by
  have hall : letters.all (fun l => !l.isVowel
      || (Text.isAlphanumeric l.char && Text.isAlphanumeric l.upper)) = true := by decide
  obtain ⟨l, hl, hvowel, hwrites⟩ := exists_letter_of_isVowel h
  have hl := List.all_eq_true.mp hall l hl
  rw [hvowel, Bool.not_true, Bool.false_or, Bool.and_eq_true] at hl
  rcases hwrites with rfl | rfl
  · exact hl.1
  · exact hl.2

theorem isVowel_of_isDigit (h : c.isDigit = true) : isVowel c = false := by
  have hall : letters.all (fun l => !l.char.isDigit && !l.upper.isDigit) = true := by
    decide
  rw [← Bool.not_eq_true]
  intro hvowel
  obtain ⟨l, hl, -, hwrites⟩ := exists_letter_of_isVowel hvowel
  have hl := List.all_eq_true.mp hall l hl
  rcases hwrites with rfl | rfl <;> simp [h] at hl

end Alphabet

namespace Word

variable {w : Word}

theorem hasAlphanumeric_of_hasVowel (h : w.hasVowel = true) : w.hasAlphanumeric = true := by
  obtain ⟨c, hc, hvowel⟩ := List.any_eq_true.mp h
  exact List.any_eq_true.mpr ⟨c, hc, Alphabet.isAlphanumeric_of_isVowel hvowel⟩

theorem ne_nil_of_hasAlphanumeric (h : w.hasAlphanumeric = true) : w ≠ [] := by
  rintro rfl
  cases h

theorem isBlank_eq_false (h : w.hasAlphanumeric = true) : w.isBlank = false := by
  obtain ⟨c, hc, hletter⟩ := List.any_eq_true.mp h
  rw [← Bool.not_eq_true]
  intro hblank
  rw [Text.isAlphanumeric_of_isSpace (List.all_eq_true.mp hblank c hc)] at hletter
  cases hletter

theorem hasVowel_append (v w : Word) : hasVowel (v ++ w) = (hasVowel v || hasVowel w) := by
  simp [hasVowel]

theorem lastVowel?_eq_none_iff : w.lastVowel? = none ↔ w.hasVowel = false := by
  rw [hasVowel_eq_isSome_lastVowel?, Option.isSome_eq_false_iff, Option.isNone_iff_eq_none]

end Word

end TurkishMorphology
