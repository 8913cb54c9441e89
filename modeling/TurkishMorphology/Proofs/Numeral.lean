import TurkishMorphology.Numeral
import TurkishMorphology.Proofs.Word
import Mathlib.Data.List.Basic
/-!
# How numbers sound

Every number word has a vowel, and every integer has at least one word. So whatever digits are read
as has a vowel, which is what suffixes after digits harmonise with; the digits themselves have none.

## Main definitions

- `Numeral.numberWords` — the words that integers other than zero are made of

## Main statements

- `Numeral.mem_of_words?`, `Numeral.all_of_words?` — the words of an integer are number words
- `Numeral.hasVowel_of_ofDigits?` — what digits are read as has a vowel
- `Numeral.hasVowel_eq_false_of_ofDigits?` — digits have none
-/

namespace TurkishMorphology.Numeral

variable {w : Word} {words : List Word} {n : Nat}

/-- The words that integers other than zero are made of. -/
def numberWords : List Word := hundred :: (ones.drop 1 ++ tens.drop 1 ++ scales.drop 1)

theorem mem_drop_of_mem_digitWords {table : List Word} {digit : Nat}
    (hw : w ∈ digitWords table digit) : w ∈ table.drop 1 := by
  unfold digitWords at hw
  split at hw
  · cases hw
  · next hdigit =>
    have hget : (table.drop 1)[digit - 1]? = some w := by
      rw [List.getElem?_drop, Nat.add_sub_cancel' (by omega)]
      exact Option.mem_toList.mp hw
    exact List.mem_of_getElem? hget

theorem digitWords_ne_nil {table : List Word} {digit : Nat} (hdigit : digit ≠ 0)
    (hlt : digit < table.length) : digitWords table digit ≠ [] := by
  rw [digitWords, if_neg hdigit, List.getElem?_eq_getElem hlt]
  exact List.cons_ne_nil _ _

theorem mem_numberWords_of_mem_groupWords (h : w ∈ groupWords n) : w ∈ numberWords := by
  simp only [groupWords, List.mem_append] at h
  simp only [numberWords, List.mem_cons, List.mem_append]
  rcases h with ((h | h) | h) | h
  · split at h
    · exact .inr (.inl (.inl (mem_drop_of_mem_digitWords h)))
    · cases h
  · split at h
    · exact .inl (List.mem_singleton.mp h)
    · cases h
  · exact .inr (.inl (.inr (mem_drop_of_mem_digitWords h)))
  · exact .inr (.inl (.inl (mem_drop_of_mem_digitWords h)))

theorem groupWords_ne_nil (hn : n ≠ 0) (hlt : n < 1000) : groupWords n ≠ [] := by
  -- One of the three digits is not zero.
  intro hnil
  simp only [groupWords, List.append_eq_nil_iff] at hnil
  obtain ⟨⟨⟨-, hhundreds⟩, htens⟩, hones⟩ := hnil
  have h₂ : ¬ n / 100 > 0 := fun h => by simp [h] at hhundreds
  have h₁ : n / 10 % 10 = 0 := by
    by_contra h
    exact digitWords_ne_nil h (show _ < 10 by omega) htens
  have h₀ : n % 10 = 0 := by
    by_contra h
    exact digitWords_ne_nil h (show _ < 10 by omega) hones
  omega

theorem mem_numberWords_of_mem_scaledWords {scale : Nat} (h : w ∈ scaledWords scale n) :
    w ∈ numberWords := by
  unfold scaledWords at h
  split at h
  · cases h
  · rcases List.mem_append.mp h with h | h
    · split at h
      · cases h
      · exact mem_numberWords_of_mem_groupWords h
    · exact List.mem_cons_of_mem _ (List.mem_append_right _ (mem_drop_of_mem_digitWords h))

theorem scaledWords_ne_nil {scale : Nat} (hscale : scale < 6) (hn : n ≠ 0) (hlt : n < 1000) :
    scaledWords scale n ≠ [] := by
  rw [scaledWords, if_neg hn]
  intro hnil
  obtain ⟨hgroup, hword⟩ := List.append_eq_nil_iff.mp hnil
  by_cases hzero : scale = 0
  · rw [if_neg (by omega)] at hgroup
    exact groupWords_ne_nil hn hlt hgroup
  · exact digitWords_ne_nil hzero (show scale < scales.length from hscale) hword

/-- An integer is zero and said by one word, or it is said by words of other numbers. -/
theorem mem_of_words? (h : words? n = some words) :
    n = 0 ∧ words = [zero] ∨ n ≠ 0 ∧ ∀ w ∈ words, w ∈ numberWords := by
  unfold words? at h
  split at h
  · cases h
  · split at h
    · next hn =>
      cases h
      exact .inl ⟨hn, rfl⟩
    · next hn =>
      cases h
      refine .inr ⟨hn, fun w hw => ?_⟩
      obtain ⟨scale, -, hw⟩ := List.mem_flatMap.mp hw
      exact mem_numberWords_of_mem_scaledWords hw

/-- What all number words have in common holds of the words of an integer. -/
theorem all_of_words? {p : Word → Bool} (h : words? n = some words)
    (hp : (zero :: numberWords).all p = true) (hw : w ∈ words) : p w = true := by
  refine List.all_eq_true.mp hp w ?_
  rcases mem_of_words? h with ⟨-, rfl⟩ | ⟨-, hmem⟩
  · exact List.mem_cons.mpr (.inl (List.mem_singleton.mp hw))
  · exact List.mem_cons_of_mem _ (hmem w hw)

theorem hasVowel_of_mem_words? (h : words? n = some words) (hw : w ∈ words) :
    w.hasVowel = true :=
  all_of_words? h (by decide) hw

/-- An integer has words: if it is not zero, then one of its groups of three digits is not. -/
theorem words?_ne_nil (h : words? n = some words) : words ≠ [] := by
  unfold words? at h
  split at h
  · cases h
  · next hle =>
    split at h
    · cases h
      exact List.cons_ne_nil _ _
    · next hn =>
      cases h
      intro hnil
      have hgroups : ∀ scale ∈ [5, 4, 3, 2, 1, 0], n / Nat.pow 1000 scale % 1000 = 0 := by
        intro scale hscale
        by_contra hgroup
        have hlt : scale < 6 := by
          simp only [List.mem_cons, List.not_mem_nil, or_false] at hscale
          omega
        exact scaledWords_ne_nil hlt hgroup (Nat.mod_lt _ (by decide))
          (List.flatMap_eq_nil_iff.mp hnil scale hscale)
      have hlargest : largest = 999999999999999999 := rfl
      simp at hgroups
      omega

theorem hasVowel_join_cons (h : w.hasVowel = true) : (join (w :: words)).hasVowel = true := by
  cases words with
  | nil => simpa [join] using h
  | cons v rest => simp [join, List.intercalate_cons_cons, Word.hasVowel_append, h]

theorem hasVowel_of_ofNat? (h : ofNat? n = some w) : w.hasVowel = true := by
  obtain ⟨words, hwords, rfl⟩ := Option.map_eq_some_iff.mp h
  cases words with
  | nil => exact absurd rfl (words?_ne_nil hwords)
  | cons v rest => exact hasVowel_join_cons (hasVowel_of_mem_words? hwords (List.mem_cons_self ..))

/-- What digits are read as has a vowel. -/
theorem hasVowel_of_ofDigits? {digits : Word} (h : ofDigits? digits = some w) :
    w.hasVowel = true := by
  unfold ofDigits? at h
  split at h
  · obtain ⟨n, -, hn⟩ := Option.bind_eq_some_iff.mp h
    exact hasVowel_of_ofNat? hn
  · obtain ⟨whole, hwhole, h⟩ := Option.bind_eq_some_iff.mp h
    obtain ⟨decimals, -, h⟩ := Option.bind_eq_some_iff.mp h
    cases h
    obtain ⟨n, -, hn⟩ := Option.bind_eq_some_iff.mp hwhole
    exact hasVowel_join_cons (hasVowel_of_ofNat? hn)

theorem hasVowel_eq_false_of_isDigits (h : isDigits w = true) : w.hasVowel = false := by
  simp only [isDigits, Bool.and_eq_true] at h
  rw [Word.hasVowel, List.any_eq_false]
  intro c hc
  simp [Alphabet.isVowel_of_isDigit (List.all_eq_true.mp h.2 c hc)]

theorem isDigits_of_value? (h : value? w = some n) : isDigits w = true := by
  unfold value? at h
  split at h
  · next hdigits => exact (Bool.and_eq_true_iff.mp hdigits).1
  · cases h

theorem isDigits_of_fractionWords? (h : fractionWords? w = some words) : isDigits w = true := by
  unfold fractionWords? at h
  split at h
  · assumption
  · cases h

/-- Strings of digits have no vowel. -/
theorem hasVowel_eq_false_of_ofDigits? {digits : Word} (h : ofDigits? digits = some w) :
    digits.hasVowel = false := by
  unfold ofDigits? at h
  split at h
  · obtain ⟨n, hn, -⟩ := Option.bind_eq_some_iff.mp h
    exact hasVowel_eq_false_of_isDigits (isDigits_of_value? hn)
  · next integer fraction hsplit =>
    obtain ⟨whole, hwhole, h⟩ := Option.bind_eq_some_iff.mp h
    obtain ⟨decimals, hdecimals, -⟩ := Option.bind_eq_some_iff.mp h
    obtain ⟨n, hn, -⟩ := Option.bind_eq_some_iff.mp hwhole
    obtain ⟨rfl, -⟩ := Word.splitOnce?_eq_some hsplit
    have hcomma : Alphabet.isVowel ',' = false := by decide
    have hinteger := hasVowel_eq_false_of_isDigits (isDigits_of_value? hn)
    have hfraction := hasVowel_eq_false_of_isDigits (isDigits_of_fractionWords? hdecimals)
    rw [Word.hasVowel_append, hinteger, Bool.false_or]
    simpa [Word.hasVowel, hcomma] using hfraction

end TurkishMorphology.Numeral
