import TurkishMorphology.Lexicon.Entry
import TurkishMorphology.Proofs.Lexicon.Alternation
/-!
# Which letters can follow the roots of a lexeme

The unaltered root of a lexeme may want a consonant, since the altered root is there for vowels. But
a letter that is doubled and dropped again leaves the lemma root as it was, and then there is no
altered root: nothing of the lexeme can be followed by a vowel. This is the only way in which that
happens, and a consonant can always follow.

## Main definitions

- `Root.isOpenTo` — whether a root can be followed by a vowel, or by a consonant
- `Lexeme.UndoesDoubling` — attributes that double the final letter and drop it again

## Main statements

- `Lexeme.undoesDoubling_iff` — what undoing a doubling comes to
- `Lexeme.roots_cover_continuations` — which letters can follow some root
- `Lexeme.exists_roots_closed_to_vowels` — a lexeme that no vowel can follow
-/

namespace TurkishMorphology

/-- Whether a letter, vowel or not, meets all that the root expects of the next one. -/
def Root.isOpenTo (r : Root) (firstIsVowel : Bool) : Bool :=
  r.expectations.toList.all (·.isMetBy firstIsVowel)

theorem Root.isOpenTo_iff {r : Root} {firstIsVowel : Bool} : r.isOpenTo firstIsVowel = true ↔
    r.expectations.contains (if firstIsVowel then .consonantStart else .vowelStart) = false := by
  rw [isOpenTo, List.all_eq_true]
  constructor
  · intro h
    rw [← Bool.not_eq_true]
    intro hexpects
    have hmet := h _ ((FlagSet.mem_toList _ _).mpr hexpects)
    cases firstIsVowel <;> cases hmet
  · intro h e he
    rw [FlagSet.mem_toList] at he
    cases firstIsVowel <;> cases e <;> simp_all [PhoneticExpectation.isMetBy]

namespace Lexeme

variable {l : Lexeme} {m : LexemeAttribute} {rs : List Root}

/-- The final letter is doubled and one letter is dropped, and nothing else changes the stem. -/
structure UndoesDoubling (l : Lexeme) : Prop where
  regular : l.has .rootChange = false
  unvoiced : l.isVoiced = false
  doubles : l.has .doubling = true
  drops : l.has .lastVowelDrop ≠ l.has .progressiveVowelDrop

/-- The doubling is undone where the stem comes out unchanged and still wants a consonant. -/
theorem undoesDoubling_iff {a : Alternation} (h : Alternation.ofLexeme l = .ok a)
    (hregular : l.has .rootChange = false) : l.UndoesDoubling ↔
      a.stem = l.lemmaRoot ∧ a.unaltered.contains .consonantStart = true := by
  rw [Alternation.stem_eq_lemmaRoot_iff h, Alternation.contains_consonantStart_unaltered h]
  constructor
  · rintro ⟨-, hunvoiced, hdoubles, hdrops⟩
    refine ⟨⟨hunvoiced, ?_⟩, by simp [hdoubles]⟩
    rw [hdoubles]
    cases hinside : l.has .lastVowelDrop <;> cases hend : l.has .progressiveVowelDrop <;>
      simp_all
  · rintro ⟨⟨hunvoiced, hcount⟩, hwants⟩
    rw [hunvoiced, Bool.false_and, Bool.false_or] at hwants
    -- A drop that makes the root want a consonant is made up for by the doubling.
    have hdoubles : l.has .doubling = true := by
      by_contra hnone
      rw [Bool.not_eq_true] at hnone
      rw [hnone, Bool.toNat_false] at hcount
      have hinside : l.has .lastVowelDrop = false := Bool.toNat_eq_zero.mp (by omega)
      simp [hnone, hinside] at hwants
    refine ⟨hregular, hunvoiced, hdoubles, fun hsame => ?_⟩
    rw [hdoubles, Bool.toNat_true, hsame] at hcount
    omega

theorem isOpenTo_plainRoot (surface : Word) (firstIsVowel : Bool) :
    (l.plainRoot surface).isOpenTo firstIsVowel = true :=
  Root.isOpenTo_iff.mpr (FlagSet.contains_empty _)

/-- The roots of an irregular lexeme expect nothing, and there is at least one. -/
theorem exists_plainRoot_of_irregularRoots (h : l.irregularRoots = .ok rs) :
    ∃ surface, l.plainRoot surface ∈ rs := by
  unfold irregularRoots at h
  split at h
  · cases h
  · cases h
    refine ⟨l.lemmaRoot, ?_⟩
    split <;> exact List.mem_cons_self ..

/-- Some root can be followed by a consonant. Some root can be followed by a vowel as well, unless a
    letter is doubled and dropped again. -/
theorem roots_cover_continuations (h : l.roots = .ok rs) :
    (∃ r ∈ rs, r.isOpenTo false = true) ∧
      ((∃ r ∈ rs, r.isOpenTo true = true) ↔ ¬ l.UndoesDoubling) := by
  have hplain {surface : Word} (hmem : l.plainRoot surface ∈ rs) (hundone : ¬ l.UndoesDoubling) :
      (∃ r ∈ rs, r.isOpenTo false = true) ∧
        ((∃ r ∈ rs, r.isOpenTo true = true) ↔ ¬ l.UndoesDoubling) :=
    ⟨⟨_, hmem, isOpenTo_plainRoot surface false⟩,
      iff_of_true ⟨_, hmem, isOpenTo_plainRoot surface true⟩ hundone⟩
  by_cases hmodified : l.isModified = true
  · cases hregular : l.has .rootChange with
    | true =>
      rw [roots, if_pos hmodified, if_pos hregular] at h
      obtain ⟨surface, hmem⟩ := exists_plainRoot_of_irregularRoots h
      exact hplain hmem fun hundone => absurd hregular (ne_true_of_eq_false hundone.regular)
    | false =>
      rw [roots_of_regular hmodified hregular] at h
      obtain ⟨a, ha, rfl⟩ := Except.map_eq_ok_iff.mp h
      have hconsonant : a.unaltered.contains .vowelStart = false :=
        (Alternation.isOf_ofLexeme ha).unaltered
      have hundone := undoesDoubling_iff ha hregular
      by_cases hstem : a.stem = l.lemmaRoot
      · obtain ⟨r, hr, -, hexpects⟩ := Alternation.exists_roots_of_stem_eq hstem
        simp [hr, Root.isOpenTo_iff, hexpects, hconsonant, hundone, hstem]
      · obtain ⟨r, s, hrs, ⟨-, hr⟩, -, hs⟩ := Alternation.exists_roots_of_stem_ne hstem
        have hvowel := Alternation.contains_consonantStart_altered ha
        simp [hrs, Root.isOpenTo_iff, hr, hs, hconsonant, hvowel, hundone, hstem]
  · rw [roots, if_neg hmodified] at h
    cases h
    refine hplain (List.mem_singleton_self _) fun hundone => hmodified ?_
    exact isModified_of_has hundone.doubles (by decide)

/-- `burun`, which drops a vowel. -/
def burun : Lexeme where
  citation := "burun".toList
  lemmaRoot := "burun".toList
  pos := .noun
  attributes := .ofList [.lastVowelDrop]

/-- For `burun`, whose unaltered root is not open to vowels. -/
theorem roots_cover_continuations_burun : ∃ rs, burun.roots = .ok rs ∧
    (∃ r ∈ rs, r.isOpenTo false = true) ∧
      ((∃ r ∈ rs, r.isOpenTo true = true) ↔ ¬ burun.UndoesDoubling) := by
  obtain ⟨rs, hrs⟩ : ∃ rs, burun.roots = .ok rs := ⟨_, rfl⟩
  exact ⟨rs, hrs, roots_cover_continuations hrs⟩

/-- `hak` with its final letter doubled and dropped again. -/
def hak : Lexeme where
  citation := "hak".toList
  lemmaRoot := "hak".toList
  pos := .noun
  attributes := .ofList [.noVoicing, .doubling, .lastVowelDrop]

/-- A dictionary can ask for both changes. Then the only root of `hak` is closed to vowels. -/
theorem exists_roots_closed_to_vowels :
    Entry.read "hak [A:Doubling, LastVowelDrop]".toList 1 = .ok (some hak) ∧
      ∃ rs, hak.roots = .ok rs ∧ ∀ r ∈ rs, r.isOpenTo true = false := by
  exact ⟨by decide +kernel, _, rfl, by decide⟩

end Lexeme

end TurkishMorphology
