import TurkishMorphology.Lexicon.Entry
import TurkishMorphology.Proofs.Lexicon.Alternation
/-!
# Which letter a vowel drop removes

The two drops remove a letter by its place: the last but one, as in `burun` and `burn`, or the last
one, as in `ara` and `ar`. They are refused only if there is no letter at that place. What they
remove is the last vowel only if it is a vowel at all and no other one follows.

## Main definitions

- `Word.LosesLastVowel` — a word without its last vowel
- `Lexeme.vowelDrops` — the attributes that drop a vowel, with the places

## Main statements

- `Word.losesLastVowel_iff` — when the letter at a place is the last vowel
- `Lexeme.roots_of_vowelDrop` — the roots of a lexeme that only drops a vowel
-/

namespace TurkishMorphology

namespace Word

variable {w v front : Word} {c d : Char}

/-- The letter at a place counted from the end. -/
theorem exists_eq_append_cons {n : Nat} (hpos : 1 ≤ n) (hlength : n ≤ w.length) :
    ∃ front c back, w = front ++ c :: back ∧ back.length + 1 = n := by
  have hlt : w.length - n < w.length := by omega
  refine ⟨w.take (w.length - n), w[w.length - n], w.drop (w.length - n + 1), ?_, ?_⟩
  · rw [List.getElem_cons_drop, List.take_append_drop]
  · rw [List.length_drop]
    omega

/-- The letters of `v` are those of `w` without its last vowel. -/
def LosesLastVowel (w v : Word) : Prop :=
  ∃ front c back, w = front ++ c :: back ∧ Alphabet.isVowel c = true ∧ hasVowel back = false ∧
    v = front ++ back

theorem LosesLastVowel.vowelCount_eq (h : LosesLastVowel w v) :
    w.vowelCount = v.vowelCount + 1 := by
  obtain ⟨front, c, back, rfl, hc, -, rfl⟩ := h
  simp [vowelCount, hc]
  omega

theorem LosesLastVowel.isVowel {back : Word}
    (h : LosesLastVowel (front ++ c :: back) (front ++ back)) : Alphabet.isVowel c = true := by
  have hcount := h.vowelCount_eq
  by_contra hc
  simp only [vowelCount, List.countP_append, List.countP_cons, if_neg hc] at hcount
  omega

theorem eq_singleton_of_mem {back : Word} (hback : back.length ≤ 1) (hd : d ∈ back) :
    back = [d] := by
  obtain ⟨x, rfl⟩ := List.length_eq_one_iff.mp
    (Nat.le_antisymm hback (List.length_pos_of_mem hd))
  rw [List.mem_singleton.mp hd]

/-- A letter that is the last one, or the last but one, is taken for the last vowel if it is a vowel
    and no other vowel follows. -/
theorem losesLastVowel_iff {back : Word} (hback : back.length ≤ 1) :
    LosesLastVowel (front ++ c :: back) (front ++ back) ↔
      Alphabet.isVowel c = true ∧ ∀ d ∈ back, Alphabet.isVowel d = true → d = c := by
  constructor
  · intro h
    refine ⟨h.isVowel, fun d hd hvowel => ?_⟩
    obtain rfl := eq_singleton_of_mem hback hd
    obtain ⟨before, x, rest, hw, -, hrest, hv⟩ := h
    rcases List.eq_nil_or_concat' rest with rfl | ⟨rest, y, rfl⟩
    · have hw : (front ++ [c]) ++ [d] = before ++ [x] := by rw [← hw, List.append_assoc]; rfl
      obtain ⟨rfl, -⟩ := List.append_inj' hw rfl
      simpa using hv
    · have hw : (front ++ [c]) ++ [d] = (before ++ x :: rest) ++ [y] := by
        rw [List.append_assoc, List.append_assoc]
        exact hw
      obtain ⟨-, hy⟩ := List.append_inj' hw rfl
      obtain rfl := List.singleton_inj.mp hy
      simp [hasVowel, hvowel] at hrest
  · rintro ⟨hc, hback'⟩
    cases hvowel : hasVowel back with
    | false => exact ⟨front, c, back, rfl, hc, hvowel, rfl⟩
    | true =>
      -- The one letter that follows is the same vowel, so either may go.
      obtain ⟨d, hd, hdvowel⟩ := List.any_eq_true.mp hvowel
      obtain rfl := hback' d hd hdvowel
      obtain rfl := eq_singleton_of_mem hback hd
      exact ⟨front ++ [d], d, [], by simp, hc, rfl, by simp⟩

end Word

namespace Lexeme

variable {l : Lexeme} {m : LexemeAttribute}

/-- The attributes that drop a vowel, with the place of the letter that they drop, counted from the
    end. -/
def vowelDrops : List (LexemeAttribute × Nat) := [(.lastVowelDrop, 2), (.progressiveVowelDrop, 1)]

/-- A drop that is the only change needs as many letters as it counts. -/
theorem ofLexeme_of_vowelDrop {n : Nat} (hm : (m, n) ∈ vowelDrops) (h : l.HasOnly m) :
    (l.lemmaRoot.length < n →
      Alternation.ofLexeme l = .error (.inapplicableAttribute l.lemmaRoot m)) ∧
    (n ≤ l.lemmaRoot.length → ∃ exclusive, Alternation.ofLexeme l =
      .ok (Alternation.change { stem := l.lemmaRoot }
        (l.lemmaRoot.eraseIdx (l.lemmaRoot.length - n)) exclusive)) := by
  simp only [vowelDrops, List.mem_cons, List.not_mem_nil, or_false, Prod.mk.injEq] at hm
  rcases hm with ⟨rfl, rfl⟩ | ⟨rfl, rfl⟩
  · have hhas : l.has .lastVowelDrop = true := h .lastVowelDrop (by decide)
    rw [ofLexeme_of_hasOnly_lastVowelDrop h, Alternation.dropLastVowel, if_pos hhas]
    exact ⟨fun hshort => if_pos hshort, fun hlong => ⟨_, if_neg (Nat.not_lt.mpr hlong)⟩⟩
  · have hhas : l.has .progressiveVowelDrop = true := h .progressiveVowelDrop (by decide)
    rw [ofLexeme_of_hasOnly_progressiveVowelDrop h, Alternation.dropFinal, if_pos hhas,
      List.eraseIdx_length_sub_one]
    constructor
    · intro hshort
      have hnil : l.lemmaRoot = [] := List.length_eq_zero_iff.mp (by omega)
      exact if_pos (List.isEmpty_iff.mpr hnil)
    · intro hlong
      have hne : l.lemmaRoot ≠ [] := List.ne_nil_of_length_pos hlong
      exact ⟨_, if_neg (mt List.isEmpty_iff.mp hne)⟩

/-- A lexeme whose only change is to drop a vowel is refused exactly if its lemma root is too short
    for the place of the letter. Otherwise it has two roots, and the second is without the letter at
    that place. This is the last vowel exactly if it is a vowel and no other vowel follows. -/
theorem roots_of_vowelDrop {n : Nat} (hm : (m, n) ∈ vowelDrops) (h : l.HasOnly m) :
    (l.lemmaRoot.length < n → l.roots = .error (.inapplicableAttribute l.lemmaRoot m)) ∧
    (n ≤ l.lemmaRoot.length → ∃ r s front c back, l.roots = .ok [r, s] ∧
      r.surface = l.lemmaRoot ∧ l.lemmaRoot = front ++ c :: back ∧ back.length + 1 = n ∧
      s.surface = front ++ back ∧
      (Word.LosesLastVowel l.lemmaRoot s.surface ↔
        Alphabet.isVowel c = true ∧ ∀ d ∈ back, Alphabet.isVowel d = true → d = c)) := by
  have hdrop : ∀ p ∈ vowelDrops, p.1 ∈ LexemeAttribute.modifiers ∧ p.1 ≠ .rootChange ∧
      1 ≤ p.2 ∧ p.2 ≤ 2 := by decide
  obtain ⟨hmodifier, hregular, hpos, hle⟩ :
      m ∈ LexemeAttribute.modifiers ∧ m ≠ .rootChange ∧ 1 ≤ n ∧ n ≤ 2 := hdrop _ hm
  obtain ⟨hshort, hlong⟩ := ofLexeme_of_vowelDrop hm h
  rw [roots_of_hasOnly h hmodifier hregular]
  constructor
  · intro hlength
    rw [hshort hlength]
    rfl
  · intro hlength
    obtain ⟨exclusive, hchanged⟩ := hlong hlength
    obtain ⟨front, c, back, hsplit, hback⟩ := Word.exists_eq_append_cons hpos hlength
    have hstem : l.lemmaRoot.eraseIdx (l.lemmaRoot.length - n) = front ++ back := by
      rw [hsplit, ← hback]
      exact Word.eraseIdx_append_cons front c back
    have hne : front ++ back ≠ l.lemmaRoot := by
      intro heq
      have hcount := congrArg List.length (heq.trans hsplit)
      simp at hcount
    rw [hchanged, hstem]
    obtain ⟨r, s, hrs, ⟨hr, -⟩, hs, -⟩ := Alternation.exists_roots_of_stem_ne
      (a := Alternation.change { stem := l.lemmaRoot } (front ++ back) exclusive) hne
    refine ⟨r, s, front, c, back, congrArg Except.ok hrs, hr, hsplit, hback, hs, ?_⟩
    rw [hs, hsplit]
    exact Word.losesLastVowel_iff (by omega)

/-- `oğul`, which drops its second vowel. -/
def ogul : Lexeme where
  citation := "oğul".toList
  lemmaRoot := "oğul".toList
  pos := .noun
  attributes := .ofList [.lastVowelDrop]

/-- For `oğul` and `oğl`. -/
theorem roots_of_vowelDrop_ogul :
    (.lastVowelDrop, 2) ∈ vowelDrops ∧ ogul.HasOnly .lastVowelDrop ∧
      2 ≤ ogul.lemmaRoot.length ∧ ∃ r s front c back, ogul.roots = .ok [r, s] ∧
        r.surface = ogul.lemmaRoot ∧ ogul.lemmaRoot = front ++ c :: back ∧
        back.length + 1 = 2 ∧ s.surface = front ++ back ∧
        (Word.LosesLastVowel ogul.lemmaRoot s.surface ↔
          Alphabet.isVowel c = true ∧ ∀ d ∈ back, Alphabet.isVowel d = true → d = c) := by
  have hm : (.lastVowelDrop, 2) ∈ vowelDrops := by decide
  have hogul : ogul.HasOnly .lastVowelDrop := by
    unfold HasOnly
    decide
  have hlength : 2 ≤ ogul.lemmaRoot.length := by decide
  exact ⟨hm, hogul, hlength, (roots_of_vowelDrop hm hogul).2 hlength⟩

/-- A root of consonants that is said to drop its last vowel. -/
def grr : Lexeme where
  citation := "grr".toList
  lemmaRoot := "grr".toList
  pos := .noun
  attributes := .ofList [.lastVowelDrop]

/-- Nothing keeps a dictionary from saying so, and then a consonant is dropped. -/
theorem exists_consonant_dropped :
    Entry.read "grr [A:LastVowelDrop]".toList 1 = .ok (some grr) ∧
      grr.HasOnly .lastVowelDrop ∧
      ∃ r s, grr.roots = .ok [r, s] ∧ ¬ Word.LosesLastVowel grr.lemmaRoot s.surface := by
  have hgrr : grr.HasOnly .lastVowelDrop := by
    unfold HasOnly
    decide
  refine ⟨by decide +kernel, hgrr, _, _, rfl, fun hloses => ?_⟩
  have hvowels : grr.lemmaRoot.vowelCount = 0 := by decide
  rw [hloses.vowelCount_eq] at hvowels
  cases hvowels

end Lexeme

end TurkishMorphology
