import TurkishMorphology.Proofs.Lexicon.LongestNumeral
import TurkishMorphology.Proofs.Lexicon.RootSource
import TurkishMorphology.Proofs.Phonetics.Sound
/-!
# Roots without circumflexes

An index can be made to hold, with each root that has circumflexes, a copy without them. The copy
is found by every analyser that finds the root. It is never spelled as the lemma root, which keeps
its circumflexes.

## Main statements

- `RootIndex.mem_get_withoutCircumflex` — the copy is in the index
- `RootIndex.exists_circumflex_lemmaRoot` — circumflexes come from the lemma root
- `SourceOptions.mem_roots_withoutCircumflex` — the copy is found
-/

namespace TurkishMorphology

/-- Irregular stems have no circumflexes. -/
theorem hasCircumflex_irregularStem {lemmaRoot stem : Word} {pos : PrimaryPos}
    (h : irregularStem? lemmaRoot pos = some stem) : stem.any Alphabet.hasCircumflex = false := by
  have hall : ∀ e ∈ irregularStems, e.2.any Alphabet.hasCircumflex = false := by decide
  obtain ⟨entry, hentry, -, rfl⟩ := exists_mem_irregularStems h
  exact hall entry hentry

theorem hasCircumflex_voicedChars {c : Char} (h : c ∈ Alphabet.voicedChars) :
    Alphabet.hasCircumflex c = false := by
  have hall : Alphabet.voicedChars.all (fun c => !Alphabet.hasCircumflex c) = true := by
    decide
  simpa using List.all_eq_true.mp hall c h

namespace RootIndex

variable {options : LexiconOptions} {ls : List Lexeme} {index : RootIndex} {r : Root} {s : Word}

/-- A root with circumflexes is no copy. -/
theorem eq_of_mem_withPlainCopy {t : Root} (hcopy : r ∈ Lexeme.withPlainCopy t)
    (hr : r.surface.any Alphabet.hasCircumflex = true) : r = t := by
  rcases Lexeme.mem_withPlainCopy_iff.mp hcopy with rfl | ⟨-, rfl⟩
  · rfl
  · obtain ⟨c, hc, hcircumflex⟩ := List.any_eq_true.mp hr
    rw [Word.hasCircumflex_of_mem_withoutCircumflex hc] at hcircumflex
    cases hcircumflex

/-- With a root that has circumflexes an index may hold its copy without them. -/
theorem mem_get_withoutCircumflex (h : ofLexemes { circumflexFree := true } ls = .ok index)
    (hr : r ∈ index.get s) (hcircumflex : r.surface.any Alphabet.hasCircumflex = true) :
    r.withSurface r.surface.withoutCircumflex ∈ index.get r.surface.withoutCircumflex := by
  obtain ⟨rfl, l, hl, rs, hrs, hmem⟩ := (mem_get_ofLexemes_iff h).mp hr
  obtain ⟨roots, hroots, t, ht, hcopy⟩ := (Lexeme.mem_rootsWithPlain_iff hrs).mp hmem
  obtain rfl := eq_of_mem_withPlainCopy hcopy hcircumflex
  refine (mem_get_ofLexemes_iff h).mpr ⟨rfl, l, hl, rs, hrs, ?_⟩
  exact (Lexeme.mem_rootsWithPlain_iff hrs).mpr ⟨roots, hroots, r, ht,
    Lexeme.mem_withPlainCopy_iff.mpr (.inr ⟨hcircumflex, rfl⟩)⟩

/-- The circumflexes of a root come from the lemma root of its lexeme. -/
theorem exists_circumflex_lemmaRoot (h : ofLexemes options ls = .ok index)
    (hr : r ∈ index.get s) (hcircumflex : r.surface.any Alphabet.hasCircumflex = true) :
    r.lexeme.lemmaRoot.any Alphabet.hasCircumflex = true := by
  obtain ⟨-, t, hcopy, -, -, hspells⟩ := exists_root_of_mem_get h hr
  obtain rfl := eq_of_mem_withPlainCopy hcopy hcircumflex
  cases hspells with
  | unaltered hsurface _ => rwa [← hsurface]
  | irregular hstem _ =>
    rw [hasCircumflex_irregularStem hstem] at hcircumflex
    cases hcircumflex
  | altered _ hletters =>
    obtain ⟨c, hc, hcircumflex⟩ := List.any_eq_true.mp hcircumflex
    rcases hletters c hc with hlemma | hvoiced
    · exact List.any_eq_true.mpr ⟨c, hlemma, hcircumflex⟩
    · rw [hasCircumflex_voicedChars hvoiced] at hcircumflex
      cases hcircumflex

end RootIndex

namespace RootSource

variable {beginning whole : Word} {r : Root}

/-- A link of a chain finds its roots unless an exclusive link accepts the beginning. -/
theorem mem_rootsAlong_of_mem {links : List Link} {link : Link}
    (hopen : ∀ l ∈ links, l.exclusive = true → l.source.accepts beginning whole = false)
    (hlink : link ∈ links) (haccepts : link.source.accepts beginning whole = true)
    (hr : r ∈ link.source.roots beginning whole) : r ∈ rootsAlong beginning whole links := by
  induction links with
  | nil => cases hlink
  | cons first rest ih =>
    rw [rootsAlong]
    have hrest := ih fun l hl => hopen l (List.mem_cons_of_mem _ hl)
    rcases List.mem_cons.mp hlink with rfl | hlink
    · rw [if_pos haccepts]
      exact List.mem_append_left _ hr
    · split
      · next hfirst =>
        have hexclusive : first.exclusive = false := by
          by_contra hexclusive
          have hclosed := hopen first (List.mem_cons_self ..) (by simpa using hexclusive)
          rw [hclosed] at hfirst
          cases hfirst
        rw [hexclusive]
        exact List.mem_append_right _ (hrest hlink)
      · exact hrest hlink

/-- A copy without circumflexes has a vowel where the root has one with a circumflex. -/
theorem exists_plain_vowel {w : Word} (h : w.any Alphabet.hasCircumflex = true) :
    ∃ c ∈ w.withoutCircumflex, Text.isAlphanumeric c = true ∧ c.isDigit = false ∧ c ≠ ',' := by
  have hpairs : ∀ p ∈ Alphabet.circumflexPairs,
      Text.isAlphanumeric p.2 = true ∧ p.2.isDigit = false ∧ p.2 ≠ ',' := by decide
  obtain ⟨c, hc, hcircumflex⟩ := List.any_eq_true.mp h
  rcases Alphabet.withoutCircumflex_cases c with ⟨hplain, -⟩ | ⟨-, hpair⟩
  · rw [hplain] at hcircumflex
    cases hcircumflex
  · exact ⟨_, List.mem_map_of_mem hc, hpairs _ hpair⟩

/-- The copy of a root with circumflexes is neither a numeral nor punctuation. -/
theorem not_accepts_withoutCircumflex {w : Word} (whole : Word)
    (h : w.any Alphabet.hasCircumflex = true) :
    numeral.accepts w.withoutCircumflex whole = false ∧
      punctuation.accepts w.withoutCircumflex whole = false := by
  obtain ⟨c, hc, halnum, hdigit, hcomma⟩ := exists_plain_vowel h
  constructor
  · rw [← Bool.not_eq_true]
    intro haccepts
    simp only [numeral, Bool.and_eq_true] at haccepts
    rcases Numeral.digit_or_comma_of_isNumeral haccepts.1 hc with hc | hc
    · rw [hdigit] at hc
      cases hc
    · exact hcomma hc
  · rw [← Bool.not_eq_true]
    intro haccepts
    simp only [punctuation, Bool.and_eq_true, List.all_eq_true] at haccepts
    have hsilent := haccepts.2 c hc
    simp [halnum] at hsilent

end RootSource

/-- Whatever sources stand besides the dictionary, the copy of a root with circumflexes is found
    if the dictionary has it. -/
theorem SourceOptions.mem_roots_withoutCircumflex (options : SourceOptions) {index : RootIndex}
    {w : Word} (whole : Word) {r : Root} (hw : w.any Alphabet.hasCircumflex = true)
    (hr : r ∈ index.get w.withoutCircumflex) :
    (options.chain index).accepts w.withoutCircumflex whole = true ∧
      r ∈ (options.chain index).roots w.withoutCircumflex whole := by
  have hdictionary : (⟨.dictionary index, false⟩ : RootSource.Link) ∈
      options.besides ++ [⟨.dictionary index, false⟩] := by simp
  have haccepts : (RootSource.dictionary index).accepts w.withoutCircumflex whole = true := by
    obtain ⟨c, hc, -⟩ := RootSource.exists_plain_vowel hw
    simpa [RootSource.dictionary] using List.ne_nil_of_mem hc
  refine ⟨List.any_eq_true.mpr ⟨_, hdictionary, haccepts⟩, ?_⟩
  refine RootSource.mem_rootsAlong_of_mem ?_ hdictionary haccepts hr
  intro link hlink hexclusive
  obtain ⟨hnumeral, hpunctuation⟩ := RootSource.not_accepts_withoutCircumflex whole hw
  rcases List.mem_append.mp hlink with hlink | hlink
  · rcases mem_besides hlink with rfl | rfl | rfl | rfl
    · exact hnumeral
    · exact hpunctuation
    · cases hexclusive
    · cases hexclusive
  · obtain rfl := List.mem_singleton.mp hlink
    cases hexclusive

end TurkishMorphology
