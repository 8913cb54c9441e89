import TurkishMorphology.Proofs.Lexicon.Context
import TurkishMorphology.Proofs.Lexicon.Alternation
import TurkishMorphology.Proofs.Lexicon.Tags
/-!
# Roots without letters

A root is looked up by its letters, so one that has none stays in the index and is never found in a
word. There are two ways to get one. A line may give an actual root and leave it blank, since an
actual root is not checked. And a final vowel is dropped from a stem of one letter as from any
other, while the vowel before the last letter is dropped only if there are two letters.

## Main definitions

- `Lexeme.LosesAllLetters` — lexemes whose altered root has no letters

## Main statements

- `Alternation.stem_eq_nil_iff` — when no letter of a lemma root is left
- `Lexeme.forall_surface_ne_nil_iff`, `RootIndex.forall_surface_ne_nil_iff` — when all roots have
  letters
- `RootIndex.hasContext_iff` — how roots are filed, and which lines give roots without a context
- `RootIndex.exists_root_without_letters` — an actual root left blank
-/

namespace TurkishMorphology

namespace Alternation

variable {l : Lexeme} {a b : Alternation}

/-- Dropping the letter before the last one leaves the last one. -/
theorem length_pos_of_dropLastVowel (h : dropLastVowel l a = .ok b) (hpos : 0 < a.stem.length) :
    0 < b.stem.length := by
  have hlength := length_of_dropLastVowel h
  rw [dropLastVowel_eq_ok_iff] at h
  split at h
  · next hasks =>
    rw [hasks, Bool.toNat_true] at hlength
    omega
  · rw [h]
    exact hpos

end Alternation

/-- The changes leave no letter of the lemma root. -/
structure Lexeme.LosesAllLetters (l : Lexeme) : Prop where
  regular : l.has .rootChange = false
  drops : l.has .progressiveVowelDrop = true
  /-- There is one letter when the final one is dropped. -/
  letters : l.lemmaRoot.length + (l.has .doubling).toNat = (l.has .lastVowelDrop).toNat + 1

namespace Alternation

variable {l : Lexeme} {a : Alternation}

/-- No letter is left where the last one is dropped as the final vowel. -/
theorem stem_eq_nil_iff (h : ofLexeme l = .ok a) (hregular : l.has .rootChange = false)
    (hne : l.lemmaRoot ≠ []) : a.stem = [] ↔ l.LosesAllLetters := by
  obtain ⟨b, c, d, hvoiced, hdoubled, hdropped, hfinal⟩ := ofLexeme_eq_ok_iff.mp h
  have hb := length_of_voiceStop hvoiced
  have hc := length_of_doubleLast hdoubled
  have hd := length_of_dropLastVowel hdropped
  have ha := length_of_dropFinal hfinal
  have hpos : 0 < d.stem.length := by
    have hlemma := List.length_pos_of_ne_nil hne
    exact length_pos_of_dropLastVowel hdropped (by omega)
  rw [← List.length_eq_zero_iff]
  constructor
  · intro hnil
    have hdrops : l.has .progressiveVowelDrop = true := by
      by_contra hnone
      rw [Bool.not_eq_true] at hnone
      rw [hnone, Bool.toNat_false] at ha
      omega
    rw [hdrops, Bool.toNat_true] at ha
    exact ⟨hregular, hdrops, by omega⟩
  · rintro ⟨-, hdrops, hletters⟩
    rw [hdrops, Bool.toNat_true] at ha
    omega

end Alternation

namespace Lexeme

variable {l : Lexeme} {rs : List Root} {r : Root}

/-- The irregular roots have letters. -/
theorem surface_ne_nil_of_mem_irregularRoots (h : l.irregularRoots = .ok rs) :
    l.lemmaRoot ≠ [] ∧ ∀ r ∈ rs, r.surface ≠ [] := by
  have hall : ∀ entry ∈ irregularStems, entry.1.1 ≠ [] ∧ entry.2 ≠ [] := by decide
  unfold irregularRoots at h
  split at h
  · cases h
  · next stem hstem =>
    obtain ⟨entry, hentry, hlemma, rfl⟩ := exists_mem_irregularStems hstem
    obtain ⟨hne, hstemne⟩ := hall entry hentry
    rw [hlemma] at hne
    refine ⟨hne, ?_⟩
    cases h
    split <;> simp [plainRoot, Root.listed, hne, hstemne]

/-- All roots of a lexeme have letters exactly if its lemma root has some and the changes leave
    some. -/
theorem forall_surface_ne_nil_iff (h : l.roots = .ok rs) :
    (∀ r ∈ rs, r.surface ≠ []) ↔ l.lemmaRoot ≠ [] ∧ ¬ l.LosesAllLetters := by
  by_cases hmodified : l.isModified = true
  · cases hregular : l.has .rootChange with
    | true =>
      rw [roots, if_pos hmodified, if_pos hregular] at h
      obtain ⟨hne, hall⟩ := surface_ne_nil_of_mem_irregularRoots h
      refine iff_of_true hall ⟨hne, fun hloses => ?_⟩
      rw [hloses.regular] at hregular
      cases hregular
    | false =>
      rw [roots_of_regular hmodified hregular] at h
      obtain ⟨a, ha, rfl⟩ := Except.map_eq_ok_iff.mp h
      by_cases hstem : a.stem = l.lemmaRoot
      · obtain ⟨r, hr, hsurface, -⟩ := Alternation.exists_roots_of_stem_eq hstem
        have hloses := Alternation.stem_eq_nil_iff ha hregular
        rw [hstem] at hloses
        simp only [hr, List.mem_singleton, forall_eq, hsurface]
        exact ⟨fun hne => ⟨hne, mt (hloses hne).mpr hne⟩, And.left⟩
      · obtain ⟨r, s, hrs, ⟨hr, -⟩, hs, -⟩ := Alternation.exists_roots_of_stem_ne hstem
        simp only [hrs, List.mem_cons, List.not_mem_nil, or_false, forall_eq_or_imp, forall_eq, hr,
          hs]
        exact and_congr_right fun hne => (Alternation.stem_eq_nil_iff ha hregular hne).not
  · rw [roots, if_neg hmodified] at h
    cases h
    have hkeeps : ¬ l.LosesAllLetters := fun hloses =>
      hmodified (isModified_of_has hloses.drops (by decide))
    simp [plainRoot, Root.listed, hkeeps]

end Lexeme

/-! Lines that hold a lexeme, and what their lexemes are made of. -/

namespace Entry

variable {lines : List Word} {ls : List Lexeme} {l : Lexeme}

/-- The lexemes of a dictionary are those of its lines. -/
theorem mem_readLines_iff {number : Nat} (h : readLines number lines = .ok ls) :
    l ∈ ls ↔ ∃ line ∈ lines, read line 1 = .ok (some l) := by
  induction lines generalizing number ls with
  | nil =>
    cases h
    simp
  | cons line rest ih =>
    obtain ⟨entry, hentry, h⟩ := Except.bind_eq_ok_iff.mp h
    obtain ⟨others, hothers, h⟩ := Except.bind_eq_ok_iff.mp h
    cases h
    rw [List.mem_append, ih hothers, List.exists_mem_cons_iff, read_of_ok 1 hentry]
    simp

/-- All lexemes keep letters exactly if no line leaves its actual root blank and no lexeme loses
    them. -/
theorem forall_keeps_letters_iff {number : Nat} (h : readLines number lines = .ok ls) :
    (∀ l ∈ ls, l.lemmaRoot ≠ [] ∧ ¬ l.LosesAllLetters) ↔
      ∀ line ∈ lines, ∀ l, read line 1 = .ok (some l) →
        (valuesOf ['R'] line).getLast? ≠ some [] ∧ ¬ l.LosesAllLetters := by
  constructor
  · intro hall line hline l hl
    obtain ⟨hlemma, hkeeps⟩ := hall l ((mem_readLines_iff h).mpr ⟨line, hline, hl⟩)
    exact ⟨mt (lemmaRoot_eq_nil_iff hl).mpr hlemma, hkeeps⟩
  · intro hall l hl
    obtain ⟨line, hline, hread⟩ := (mem_readLines_iff h).mp hl
    obtain ⟨hlast, hkeeps⟩ := hall line hline l hread
    exact ⟨mt (lemmaRoot_eq_nil_iff hread).mp hlast, hkeeps⟩

end Entry

namespace RootIndex

variable {options : LexiconOptions} {ls : List Lexeme} {index : RootIndex} {r : Root} {s : Word}
  {text : Word}

/-- The roots of a lexeme are among those that an index holds of it. -/
theorem exists_roots_of_rootsOf {l : Lexeme} {rs : List Root} (h : rootsOf options l = .ok rs) :
    ∃ roots, l.roots = .ok roots ∧ roots ⊆ rs := by
  unfold rootsOf at h
  split at h
  · obtain ⟨roots, hroots, -⟩ := Except.map_eq_ok_iff.mp h
    refine ⟨roots, hroots, fun r hr => ?_⟩
    exact (Lexeme.mem_rootsWithPlain_iff h).mpr
      ⟨roots, hroots, r, hr, Lexeme.mem_withPlainCopy_iff.mpr (.inl rfl)⟩
  · exact ⟨rs, h, List.Subset.refl rs⟩

/-- All roots of an index have letters exactly if those of its lexemes do. -/
theorem forall_surface_ne_nil_iff (h : ofLexemes options ls = .ok index) :
    (∀ s, ∀ r ∈ index.get s, r.surface ≠ []) ↔
      ∀ l ∈ ls, l.lemmaRoot ≠ [] ∧ ¬ l.LosesAllLetters := by
  constructor
  · intro hall l hl
    obtain ⟨rss, hrss, -⟩ := ofLexemes_eq_ok_iff.mp h
    obtain ⟨rs, -, hrs⟩ := Except.exists_of_mem_mapM hrss hl
    obtain ⟨roots, hroots, hsubset⟩ := exists_roots_of_rootsOf hrs
    refine (Lexeme.forall_surface_ne_nil_iff hroots).mp fun r hr => ?_
    exact hall r.surface r ((mem_get_ofLexemes_iff h).mpr ⟨rfl, l, hl, rs, hrs, hsubset hr⟩)
  · intro hall s r hr
    obtain ⟨-, hl, roots, hroots, t, ht, hcopy⟩ := exists_origin h hr
    have hletters := (Lexeme.forall_surface_ne_nil_iff hroots).mpr (hall r.lexeme hl)
    exact mt (Lexeme.surface_eq_nil_iff_of_mem_withPlainCopy hcopy).mp (hletters t ht)

/-- A root is filed under its spelling and nowhere else. -/
theorem mem_get_iff_of_mem_toList (h : ofLexemes options ls = .ok index) (hr : r ∈ index.toList) :
    r ∈ index.get s ↔ s = r.surface := by
  obtain ⟨t, ht⟩ := mem_toList_iff.mp hr
  obtain ⟨rfl, -⟩ := exists_origin h ht
  constructor
  · intro hs
    exact (exists_origin h hs).1.symm
  · rintro rfl
    exact ht

/-- The roots of a dictionary are filed under their spellings, and those with letters have a
    context. All of them have one exactly if no line leaves its actual root blank and none drops
    the only letter of a stem. -/
theorem hasContext_iff (hread : Entry.readAll text = .ok ls)
    (h : ofLexemes options ls = .ok index) :
    (∀ r ∈ index.toList, ∀ s, r ∈ index.get s ↔ s = r.surface) ∧
    (∀ r ∈ index.toList, r.surface ≠ [] → r.attributes ∈ Phonetics.contexts) ∧
    ((∀ r ∈ index.toList, r.HasContext) ↔
      ∀ line ∈ text.lines, ∀ l, Entry.read line 1 = .ok (some l) →
        (Entry.valuesOf ['R'] line).getLast? ≠ some [] ∧ ¬ l.LosesAllLetters) := by
  have hcontext : ∀ r ∈ index.toList, r.surface ≠ [] → r.HasContext := by
    intro r hr hne
    exact hasContext_of_mem_get h ((mem_get_iff_of_mem_toList h hr).mpr rfl) hne
  refine ⟨fun r hr s => mem_get_iff_of_mem_toList h hr,
    fun r hr hne => (hcontext r hr hne).attributes, ?_⟩
  rw [← Entry.forall_keeps_letters_iff hread, ← forall_surface_ne_nil_iff h]
  constructor
  · intro hall s r hr
    exact (hall r (mem_toList_iff.mpr ⟨s, hr⟩)).surface
  · intro hall r hr
    obtain ⟨s, hs⟩ := mem_toList_iff.mp hr
    exact hcontext r hr (hall s r hs)

/-- Whether a dictionary can be indexed and its roots pass a test. -/
def indexes (options : LexiconOptions) (text : Word) (test : List Root → Bool) : Bool :=
  (Entry.readAll text).toOption.any fun ls =>
    (ls.mapM (rootsOf options)).toOption.any fun rss => test rss.flatten

theorem exists_of_indexes {test : List Root → Bool} (h : indexes options text test = true) :
    ∃ ls rs, Entry.readAll text = .ok ls ∧ ofLexemes options ls = .ok (ofRoots rs) ∧
      test rs = true := by
  obtain ⟨ls, hls, h⟩ := (Option.any_eq_true ..).mp h
  obtain ⟨rss, hrss, htest⟩ := (Option.any_eq_true ..).mp h
  refine ⟨ls, rss.flatten, Except.toOption_eq_some_iff.mp hls, ?_, htest⟩
  exact ofLexemes_eq_ok_iff.mpr ⟨rss, Except.toOption_eq_some_iff.mp hrss, rfl⟩

/-- A root with circumflexes and one that changes, both by their actual roots. -/
def ruzgarText : Word := "rüzgârlar [R:rüzgâr]\n# ağız\nağızlar [A:LastVowelDrop; R:ağız]".toList

theorem hasContext_iff_ruzgar : ∃ ls index, Entry.readAll ruzgarText = .ok ls ∧
    ofLexemes { circumflexFree := true } ls = .ok index ∧
    (∀ r ∈ index.toList, r.HasContext) ∧
      ∀ r ∈ index.toList, ∀ s, r ∈ index.get s ↔ s = r.surface := by
  have hindexes : indexes { circumflexFree := true } ruzgarText (fun _ => true) = true := by
    decide +kernel
  obtain ⟨ls, rs, hread, hindex, -⟩ := exists_of_indexes hindexes
  have hlines : ruzgarText.lines.all (fun line => (Entry.valuesOf ['R'] line).getLast? != some [] &&
      (Entry.read line 1).toOption.join.all fun l => !l.has .progressiveVowelDrop) = true := by
    decide +kernel
  obtain ⟨hfiled, -, hall⟩ := hasContext_iff hread hindex
  refine ⟨ls, _, hread, hindex, hall.mpr fun line hline l hl => ?_, hfiled⟩
  have hline := List.all_eq_true.mp hlines line hline
  rw [hl, Bool.and_eq_true, bne_iff_ne] at hline
  refine ⟨hline.1, fun hloses => ?_⟩
  have hdrops : (!l.has .progressiveVowelDrop) = true := hline.2
  rw [hloses.drops] at hdrops
  cases hdrops

/-- An actual root may be blank: the root of `kitap` is filed under the empty word, and its
    attributes are those of no word. -/
theorem exists_root_without_letters : ∃ ls index, Entry.readAll "kitap [R:]".toList = .ok ls ∧
    ofLexemes {} ls = .ok index ∧
    ∃ r ∈ index.toList, r.surface = [] ∧ r.attributes ∉ Phonetics.contexts := by
  have hindexes : indexes {} "kitap [R:]".toList (fun rs => rs.any fun r =>
      r.surface.isEmpty && !Phonetics.contexts.contains r.attributes) = true := by decide +kernel
  obtain ⟨ls, rs, hread, hindex, hany⟩ := exists_of_indexes hindexes
  obtain ⟨r, hr, hblank⟩ := List.any_eq_true.mp hany
  refine ⟨ls, _, hread, hindex, r, ?_, ?_⟩
  · exact mem_toList_iff.mpr ⟨r.surface, mem_get_ofRoots_iff.mpr ⟨hr, rfl⟩⟩
  · simpa using hblank

end RootIndex

end TurkishMorphology
