import TurkishMorphology.Lexicon.RootSource
import Mathlib.Data.List.Induction
import Mathlib.Data.List.Infix
/-!
# The longest numeral at the beginning of a word

The source of numbers accepts a beginning of a word by its shape and by what comes next. A digit, or
a comma and a digit, is taken for the rest of a longer numeral, so that only the longest numeral at
the beginning of the word can be accepted. But a numeral has one comma at most, and the look ahead
does not ask whether the comma is there already: `3,5` is the longest numeral of `3,5,1` and is
refused because of the second comma. Then the word has no accepted beginning at all.

## Main definitions

- `Numeral.IsLongest` — the longest beginning of a word that is a numeral
- `Numeral.MeetsSecondComma` — a numeral with a comma, before another comma and a digit

## Main statements

- `Numeral.isNumeral_iff` — what numerals are made of
- `Numeral.exists_isLongest` — a word that begins with a numeral begins with a longest one
- `RootSource.continuesNumeral_iff` — what the look ahead sees
- `RootSource.numeral_accepts_iff` — which beginnings are accepted
-/

namespace TurkishMorphology

namespace Word

variable {separator : Char} {w before after : Word}

theorem splitOnce?_eq_none (h : separator ∉ w) : splitOnce? separator w = none := by
  induction w with
  | nil => rfl
  | cons c cs ih =>
    obtain ⟨hc, hcs⟩ := not_or.mp (mt List.mem_cons.mpr h)
    have hne : (c == separator) = false := by simpa using Ne.symm hc
    rw [splitOnce?, hne, if_neg Bool.false_ne_true, ih hcs]
    rfl

theorem splitOnce?_append_cons (h : separator ∉ before) (after : Word) :
    splitOnce? separator (before ++ separator :: after) = some (before, after) := by
  induction before with
  | nil => simp [splitOnce?]
  | cons c cs ih =>
    obtain ⟨hc, hcs⟩ := not_or.mp (mt List.mem_cons.mpr h)
    have hne : (c == separator) = false := by simpa using Ne.symm hc
    rw [List.cons_append, splitOnce?, hne, if_neg Bool.false_ne_true, ih hcs]
    rfl

end Word

namespace Numeral

variable {p q w : Word} {c d : Char}

theorem isDigits_iff : isDigits w = true ↔ w ≠ [] ∧ ∀ c ∈ w, c.isDigit = true := by
  simp [isDigits]

theorem comma_notMem_of_isDigits (h : isDigits w = true) : ',' ∉ w := by
  intro hcomma
  exact absurd ((isDigits_iff.mp h).2 ',' hcomma) (by decide)

theorem isDigits_append_singleton (hw : isDigits w = true) (hd : d.isDigit = true) :
    isDigits (w ++ [d]) = true := by
  rw [isDigits_iff] at hw ⊢
  refine ⟨List.append_ne_nil_of_left_ne_nil hw.1 _, fun c hc => ?_⟩
  rcases List.mem_append.mp hc with hc | hc
  · exact hw.2 c hc
  · exact List.mem_singleton.mp hc ▸ hd

/-- A numeral is made of digits, or of digits before and after a comma. -/
theorem isNumeral_iff : isNumeral w = true ↔ isDigits w = true ∨
    ∃ integer fraction, w = integer ++ ',' :: fraction ∧ isDigits integer = true ∧
      isDigits fraction = true := by
  constructor
  · intro h
    unfold isNumeral at h
    split at h
    · next integer fraction hsplit =>
      rw [Bool.and_eq_true] at h
      exact .inr ⟨integer, fraction, (Word.splitOnce?_eq_some hsplit).1, h.1, h.2⟩
    · exact .inl h
  · rintro (h | ⟨integer, fraction, rfl, hinteger, hfraction⟩)
    · rw [isNumeral, Word.splitOnce?_eq_none (comma_notMem_of_isDigits h)]
      exact h
    · rw [isNumeral, Word.splitOnce?_append_cons (comma_notMem_of_isDigits hinteger)]
      exact Bool.and_eq_true_iff.mpr ⟨hinteger, hfraction⟩

theorem digit_or_comma_of_isNumeral (h : isNumeral w = true) (hc : c ∈ w) :
    c.isDigit = true ∨ c = ',' := by
  rcases isNumeral_iff.mp h with hdigits | ⟨integer, fraction, rfl, hinteger, hfraction⟩
  · exact .inl ((isDigits_iff.mp hdigits).2 c hc)
  · rcases List.mem_append.mp hc with hc | hc
    · exact .inl ((isDigits_iff.mp hinteger).2 c hc)
    · rcases List.mem_cons.mp hc with rfl | hc
      · exact .inr rfl
      · exact .inl ((isDigits_iff.mp hfraction).2 c hc)

theorem isDigits_of_isNumeral (h : isNumeral w = true) (hcomma : ',' ∉ w) : isDigits w = true := by
  rcases isNumeral_iff.mp h with h | ⟨integer, fraction, rfl, -, -⟩
  · exact h
  · exact absurd (List.mem_append_right _ (List.mem_cons_self ..)) hcomma

theorem isNumeral_append_digit (hw : isNumeral w = true) (hd : d.isDigit = true) :
    isNumeral (w ++ [d]) = true := by
  rw [isNumeral_iff] at hw ⊢
  rcases hw with hw | ⟨integer, fraction, rfl, hinteger, hfraction⟩
  · exact .inl (isDigits_append_singleton hw hd)
  · refine .inr ⟨integer, fraction ++ [d], ?_, hinteger, isDigits_append_singleton hfraction hd⟩
    rw [List.append_assoc, List.cons_append]

theorem isNumeral_append_comma_digit (hw : isDigits w = true) (hd : d.isDigit = true) :
    isNumeral (w ++ [',', d]) = true :=
  isNumeral_iff.mpr <| .inr
    ⟨w, [d], rfl, hw, isDigits_iff.mpr ⟨List.cons_ne_nil _ _, by simpa using hd⟩⟩

/-- The longest beginning of a word that is a numeral. -/
structure IsLongest (p w : Word) : Prop where
  isPrefix : p <+: w
  numeral : isNumeral p = true
  longest : ∀ q, q <+: w → isNumeral q = true → q.length ≤ p.length

theorem IsLongest.eq (hp : IsLongest p w) (hq : IsLongest q w) : p = q := by
  have hlength : p.length = q.length :=
    Nat.le_antisymm (hq.longest p hp.isPrefix hp.numeral) (hp.longest q hq.isPrefix hq.numeral)
  have hbegins : p <+: q :=
    List.prefix_of_prefix_length_le hp.isPrefix hq.isPrefix (Nat.le_of_eq hlength)
  exact hbegins.eq_of_length hlength

/-- A word that begins with a numeral begins with a longest one. -/
theorem exists_isLongest (hq : q <+: w) (hnumeral : isNumeral q = true) : ∃ p, IsLongest p w := by
  induction w using List.reverseRecOn with
  | nil =>
    rw [List.prefix_nil.mp hq] at hnumeral
    cases hnumeral
  | append_singleton w c ih =>
    by_cases hwhole : isNumeral (w ++ [c]) = true
    · exact ⟨w ++ [c], List.prefix_rfl, hwhole, fun v hv _ => hv.length_le⟩
    · -- Numerals that begin the longer word begin the shorter one.
      have hshorter : ∀ v, v <+: w ++ [c] → isNumeral v = true → v <+: w := by
        intro v hv hvnumeral
        rcases List.prefix_concat_iff.mp hv with rfl | hv
        · exact absurd hvnumeral hwhole
        · exact hv
      obtain ⟨p, hp⟩ := ih (hshorter q hq hnumeral)
      exact ⟨p, hp.isPrefix.trans (List.prefix_append _ _), hp.numeral,
        fun v hv hvnumeral => hp.longest v (hshorter v hv hvnumeral) hvnumeral⟩

/-- A numeral that has a comma is followed by another comma and a digit. -/
structure MeetsSecondComma (p w : Word) : Prop where
  comma : ',' ∈ p
  next : ∃ d rest, d.isDigit = true ∧ w = p ++ ',' :: d :: rest

end Numeral

namespace RootSource

open Numeral

variable {p q w rest : Word}

theorem continuesNumeral_iff : continuesNumeral rest = true ↔
    ∃ d tail, d.isDigit = true ∧ (rest = d :: tail ∨ rest = ',' :: d :: tail) := by
  constructor
  · intro h
    unfold continuesNumeral at h
    split at h
    · exact ⟨_, _, h, .inr rfl⟩
    · exact ⟨_, _, h, .inl rfl⟩
    · cases h
  · rintro ⟨d, tail, hd, rfl | rfl⟩
    · have hne : d ≠ ',' := by
        rintro rfl
        cases hd
      simp [continuesNumeral, hne, hd]
    · exact hd

/-- Where a longer beginning is a numeral, the look ahead sees that the numeral goes on. -/
theorem continuesNumeral_of_isNumeral_append {more : Word} (hnumeral : isNumeral (p ++ more) = true)
    (hmore : more ≠ []) (rest : Word) : continuesNumeral (more ++ rest) = true := by
  obtain ⟨c, tail, rfl⟩ := List.exists_cons_of_ne_nil hmore
  rw [List.cons_append, continuesNumeral_iff]
  rcases digit_or_comma_of_isNumeral hnumeral (c := c) (by simp) with hc | rfl
  · exact ⟨c, _, hc, .inl rfl⟩
  · -- The comma is the one of the numeral, and digits follow it.
    rcases isNumeral_iff.mp hnumeral with hdigits | ⟨integer, fraction, heq, hinteger, hfraction⟩
    · exact absurd (by simp) (comma_notMem_of_isDigits hdigits)
    · obtain ⟨rfl, -, rfl⟩ := (List.append_cons_inj_of_notMem (comma_notMem_of_isDigits hinteger)
        (comma_notMem_of_isDigits hfraction)).mp heq.symm
      obtain ⟨hne, hdigits⟩ := isDigits_iff.mp hfraction
      obtain ⟨d, digits, rfl⟩ := List.exists_cons_of_ne_nil hne
      exact ⟨d, _, hdigits d (List.mem_cons_self ..), .inr rfl⟩

theorem numeral_accepts_append_iff : numeral.accepts p (p ++ rest) = true ↔
    isNumeral p = true ∧ continuesNumeral rest = false := by
  simp [numeral, rest?]

theorem isPrefix_of_numeral_accepts (h : numeral.accepts p w = true) : p <+: w := by
  simp only [numeral, rest?, Bool.and_eq_true] at h
  obtain ⟨-, h⟩ := h
  split at h
  · next hbegins => exact List.isPrefixOf_iff_prefix.mp hbegins
  · cases h

/-- A beginning that is accepted is the longest numeral. -/
theorem isLongest_of_numeral_accepts (h : numeral.accepts p w = true) : IsLongest p w := by
  obtain ⟨rest, rfl⟩ := isPrefix_of_numeral_accepts h
  obtain ⟨hp, hstops⟩ := numeral_accepts_append_iff.mp h
  refine ⟨List.prefix_append _ _, hp, fun q hq hnumeral => ?_⟩
  by_contra hlonger
  obtain ⟨more, rfl⟩ :=
    List.prefix_of_prefix_length_le (List.prefix_append p rest) hq (Nat.le_of_not_le hlonger)
  obtain ⟨last, hlast⟩ := hq
  rw [List.append_assoc, List.append_cancel_left_eq] at hlast
  have hmore : more ≠ [] := by
    rintro rfl
    simp at hlonger
  rw [← hlast, continuesNumeral_of_isNumeral_append hnumeral hmore] at hstops
  cases hstops

/-- After the longest numeral the look ahead is misled by a second comma only. -/
theorem continuesNumeral_of_isLongest (h : IsLongest p (p ++ rest)) :
    continuesNumeral rest = true ↔ MeetsSecondComma p (p ++ rest) := by
  constructor
  · intro hcontinues
    obtain ⟨d, tail, hd, rfl | rfl⟩ := continuesNumeral_iff.mp hcontinues
    · have hlonger := h.longest (p ++ [d]) (by simp) (isNumeral_append_digit h.numeral hd)
      rw [List.length_append, List.length_singleton] at hlonger
      omega
    · refine ⟨?_, d, tail, hd, rfl⟩
      by_contra hcomma
      have hdigits := isDigits_of_isNumeral h.numeral hcomma
      have hlonger := h.longest (p ++ [',', d]) (by simp) (isNumeral_append_comma_digit hdigits hd)
      rw [List.length_append, List.length_cons, List.length_singleton] at hlonger
      omega
  · rintro ⟨-, d, tail, hd, heq⟩
    exact continuesNumeral_iff.mpr ⟨d, tail, hd, .inr (List.append_cancel_left heq)⟩

/-- A beginning of a word is accepted exactly if it is the longest numeral there and does not meet a
    second comma. So a word that begins with a numeral has one accepted beginning, or none if the
    longest numeral meets a second comma. -/
theorem numeral_accepts_iff (w : Word) :
    (∀ p, numeral.accepts p w = true ↔ IsLongest p w ∧ ¬ MeetsSecondComma p w) ∧
    ∀ q, q <+: w → isNumeral q = true → ∃ p, IsLongest p w ∧
      ∀ p', numeral.accepts p' w = true ↔ p' = p ∧ ¬ MeetsSecondComma p w := by
  have haccepts : ∀ p, numeral.accepts p w = true ↔ IsLongest p w ∧ ¬ MeetsSecondComma p w := by
    intro p
    constructor
    · intro h
      have hlongest := isLongest_of_numeral_accepts h
      obtain ⟨rest, rfl⟩ := hlongest.isPrefix
      refine ⟨hlongest, fun hsecond => ?_⟩
      have hstops := (numeral_accepts_append_iff.mp h).2
      rw [(continuesNumeral_of_isLongest hlongest).mpr hsecond] at hstops
      cases hstops
    · rintro ⟨hlongest, hsecond⟩
      obtain ⟨rest, rfl⟩ := hlongest.isPrefix
      have hstops := mt (continuesNumeral_of_isLongest hlongest).mp hsecond
      exact numeral_accepts_append_iff.mpr ⟨hlongest.numeral, by simpa using hstops⟩
  refine ⟨haccepts, fun q hq hnumeral => ?_⟩
  obtain ⟨p, hp⟩ := exists_isLongest hq hnumeral
  refine ⟨p, hp, fun p' => ⟨fun h => ?_, ?_⟩⟩
  · obtain ⟨hp', hsecond⟩ := (haccepts p').mp h
    obtain rfl := hp'.eq hp
    exact ⟨rfl, hsecond⟩
  · rintro ⟨rfl, hsecond⟩
    exact (haccepts p').mpr ⟨hp, hsecond⟩

/-- The decimal number in `12,5'ten`. -/
theorem numeral_accepts_iff_decimal :
    "12".toList <+: "12,5'ten".toList ∧ isNumeral "12".toList = true ∧
      ∃ p, IsLongest p "12,5'ten".toList ∧
        ∀ p', numeral.accepts p' "12,5'ten".toList = true ↔
          p' = p ∧ ¬ MeetsSecondComma p "12,5'ten".toList := by
  have hbegins : "12".toList <+: "12,5'ten".toList := by decide
  have hnumeral : isNumeral "12".toList = true := by decide
  exact ⟨hbegins, hnumeral, (numeral_accepts_iff _).2 _ hbegins hnumeral⟩

/-- The longest numeral of `3,5,1` is `3,5`, but no beginning is accepted. -/
theorem exists_longest_numeral_refused : IsLongest "3,5".toList "3,5,1".toList ∧
    ∀ p, numeral.accepts p "3,5,1".toList = false := by
  have hlongest : ∀ q ∈ "3,5,1".toList.inits, isNumeral q = true → q.length ≤ 3 := by decide
  have hnone : ∀ p ∈ "3,5,1".toList.inits, numeral.accepts p "3,5,1".toList = false := by decide
  refine ⟨⟨by decide, by decide, fun q hq => hlongest q ((List.mem_inits q _).mpr hq)⟩, fun p => ?_⟩
  rw [← Bool.not_eq_true]
  intro haccepts
  have hbegins := isPrefix_of_numeral_accepts haccepts
  rw [hnone p ((List.mem_inits p _).mpr hbegins)] at haccepts
  cases haccepts

end RootSource

end TurkishMorphology
