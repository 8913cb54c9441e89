import TurkishMorphology.Proofs.Lexicon.LongestNumeral
import TurkishMorphology.Proofs.Lexicon.RootSource
/-!
# Which words a source concerns

The sources besides the dictionary accept only words of a certain kind: numbers have a digit,
punctuation has no letters, and proper nouns begin with a capital. For any other word it makes no
difference whether the source is asked. Neither of the sources that exclude the dictionary accepts
a beginning with a letter.

## Main definitions

- `SourceOptions.AgreeOn` — two choices of sources differ in nothing that concerns a word

## Main statements

- `RootSource.any_isDigit_of_numeral_accepts`, `all_of_punctuation_accepts`,
  `isCapitalised_of_apostrophe_accepts`, `isCapitalised_of_capitalised_accepts` — what is accepted
- `SourceOptions.AgreeOn.roots_eq` — such choices find the same roots
- `SourceOptions.asksDictionary_of_letter` — letters are left to the dictionary
-/

namespace TurkishMorphology

variable {beginning whole word : Word}

theorem Numeral.any_isDigit_of_isNumeral {w : Word} (h : isNumeral w = true) :
    w.any Char.isDigit = true := by
  have hdigits : ∀ {v : Word}, isDigits v = true → ∃ c ∈ v, c.isDigit = true := by
    intro v hv
    obtain ⟨hne, hall⟩ := isDigits_iff.mp hv
    exact ⟨v.head hne, List.head_mem hne, hall _ (List.head_mem hne)⟩
  rw [List.any_eq_true]
  rcases isNumeral_iff.mp h with h | ⟨integer, fraction, rfl, hinteger, -⟩
  · exact hdigits h
  · obtain ⟨c, hc, hdigit⟩ := hdigits hinteger
    exact ⟨c, List.mem_append_left _ hc, hdigit⟩

namespace RootSource

/-- Links that do not accept the beginning are passed over. -/
theorem rootsAlong_filter (links : List Link) :
    rootsAlong beginning whole (links.filter fun link => link.source.accepts beginning whole) =
      rootsAlong beginning whole links := by
  induction links with
  | nil => rfl
  | cons link rest ih =>
    rw [List.filter_cons]
    by_cases h : link.source.accepts beginning whole = true
    · rw [if_pos h, rootsAlong, rootsAlong, if_pos h, if_pos h, ih]
    · rw [if_neg h, rootsAlong, if_neg h, ih]

theorem any_isDigit_of_numeral_accepts (hbegins : beginning <+: whole)
    (h : numeral.accepts beginning whole = true) : whole.any Char.isDigit = true := by
  have hnumeral : Numeral.isNumeral beginning = true := (Bool.and_eq_true_iff.mp h).1
  obtain ⟨c, hc, hdigit⟩ := List.any_eq_true.mp (Numeral.any_isDigit_of_isNumeral hnumeral)
  exact List.any_eq_true.mpr ⟨c, hbegins.subset hc, hdigit⟩

theorem all_of_punctuation_accepts (h : punctuation.accepts beginning whole = true) :
    beginning = whole ∧
      (whole.all fun c => !Text.isAlphanumeric c && !Text.isSpace c) = true := by
  obtain ⟨hwhole, hall⟩ := Bool.and_eq_true_iff.mp h
  obtain rfl : beginning = whole := eq_of_beq (Bool.and_eq_true_iff.mp hwhole).1
  exact ⟨rfl, hall⟩

theorem isCapitalised_of_isPrefix (hbegins : beginning <+: whole)
    (h : isCapitalised beginning = true) : isCapitalised whole = true := by
  obtain ⟨rest, rfl⟩ := hbegins
  cases beginning with
  | nil => cases h
  | cons c cs => exact h

theorem isCapitalised_of_apostrophe_accepts (hbegins : beginning <+: whole)
    (h : apostrophe.accepts beginning whole = true) : isCapitalised whole = true :=
  isCapitalised_of_isPrefix hbegins
    (Bool.and_eq_true_iff.mp (Bool.and_eq_true_iff.mp h).1).1

theorem isCapitalised_of_capitalised_accepts (hbegins : beginning <+: whole)
    (h : capitalised.accepts beginning whole = true) : isCapitalised whole = true :=
  isCapitalised_of_isPrefix hbegins
    (Bool.and_eq_true_iff.mp (Bool.and_eq_true_iff.mp h).1).2

end RootSource

namespace SourceOptions

open RootSource

variable {options options' : SourceOptions} {index : RootIndex}

/-- Two choices of sources agree on what concerns a word: on numbers if it has a digit, on
    punctuation if it has neither letters nor digits nor spaces, and on proper nouns if it begins
    with a capital. -/
structure AgreeOn (word : Word) (options options' : SourceOptions) : Prop where
  numerals : word.any Char.isDigit = true → options.numerals = options'.numerals
  punctuation : (word.all fun c => !Text.isAlphanumeric c && !Text.isSpace c) = true →
    options.punctuation = options'.punctuation
  properNouns : isCapitalised word = true → options.properNouns = options'.properNouns

/-- Links that may be left out without a change, as none of them accepts. -/
theorem filter_ite_congr {links : List Link} {b b' : Bool}
    (h : (∃ link ∈ links, link.source.accepts beginning whole = true) → b = b') :
    (if b then links else []).filter (fun link => link.source.accepts beginning whole) =
      (if b' then links else []).filter fun link => link.source.accepts beginning whole := by
  by_cases hsome : ∃ link ∈ links, link.source.accepts beginning whole = true
  · rw [h hsome]
  · have hnone : links.filter (fun link => link.source.accepts beginning whole) = [] :=
      List.filter_eq_nil_iff.mpr fun link hlink haccepts => hsome ⟨link, hlink, haccepts⟩
    cases b <;> cases b' <;> simp [hnone]

theorem AgreeOn.filter_besides_eq (h : options.AgreeOn word options')
    (hbegins : beginning <+: word) :
    options.besides.filter (fun link => link.source.accepts beginning word) =
      options'.besides.filter fun link => link.source.accepts beginning word := by
  simp only [besides, List.filter_append]
  congr 1
  congr 1
  · refine filter_ite_congr ?_
    rintro ⟨link, hlink, haccepts⟩
    obtain rfl := List.mem_singleton.mp hlink
    exact h.numerals (any_isDigit_of_numeral_accepts hbegins haccepts)
  · refine filter_ite_congr ?_
    rintro ⟨link, hlink, haccepts⟩
    obtain rfl := List.mem_singleton.mp hlink
    exact h.punctuation (all_of_punctuation_accepts haccepts).2
  · refine filter_ite_congr ?_
    rintro ⟨link, hlink, haccepts⟩
    refine h.properNouns ?_
    rcases List.mem_cons.mp hlink with rfl | hlink
    · exact isCapitalised_of_apostrophe_accepts hbegins haccepts
    · obtain rfl := List.mem_singleton.mp hlink
      exact isCapitalised_of_capitalised_accepts hbegins haccepts

theorem AgreeOn.roots_eq (h : options.AgreeOn word options') (hbegins : beginning <+: word) :
    (options.chain index).roots beginning word = (options'.chain index).roots beginning word := by
  show rootsAlong beginning word (options.besides ++ [⟨dictionary index, false⟩]) =
    rootsAlong beginning word (options'.besides ++ [⟨dictionary index, false⟩])
  rw [← rootsAlong_filter, ← rootsAlong_filter (options'.besides ++ _), List.filter_append,
    List.filter_append, h.filter_besides_eq hbegins]

theorem accepts_chain_of_ne_nil (hne : beginning ≠ []) :
    (options.chain index).accepts beginning whole = true := by
  refine List.any_eq_true.mpr ⟨⟨dictionary index, false⟩, ?_, ?_⟩
  · exact List.mem_append_right _ (List.mem_singleton.mpr rfl)
  · simpa [dictionary] using hne

/-- No source that excludes the dictionary accepts a beginning with a letter. -/
theorem asksDictionary_of_letter {c : Char} (hc : c ∈ beginning)
    (hletter : Text.isAlphanumeric c = true) (hdigit : c.isDigit = false) :
    options.asksDictionary beginning whole = true := by
  have hne : beginning.isEmpty = false := List.isEmpty_eq_false_iff.mpr (List.ne_nil_of_mem hc)
  rw [asksDictionary, hne, Bool.not_false, Bool.true_and, Bool.not_eq_true', List.any_eq_false]
  intro link hlink hexcludes
  obtain ⟨hexclusive, haccepts⟩ := Bool.and_eq_true_iff.mp hexcludes
  rcases mem_besides hlink with rfl | rfl | rfl | rfl
  · have hnumeral : Numeral.isNumeral beginning = true := (Bool.and_eq_true_iff.mp haccepts).1
    rcases Numeral.digit_or_comma_of_isNumeral hnumeral hc with h | rfl
    · rw [hdigit] at h
      cases h
    · exact absurd hletter (by decide)
  · obtain ⟨rfl, hall⟩ := all_of_punctuation_accepts haccepts
    have hplain := List.all_eq_true.mp hall c hc
    rw [hletter] at hplain
    cases hplain
  · cases hexclusive
  · cases hexclusive

end SourceOptions

end TurkishMorphology
