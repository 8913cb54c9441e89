import TurkishMorphology.Proofs.Numeral.Tables
/-!
# Reading number words

Number words are read from left to right. Within a group, ones and tens are added up and `yüz`
multiplies what stands before it by one hundred, or is one hundred. A scale word closes a group and
multiplies it; only `bin` may do without a group, and is one thousand then.

Read in this way, the words of an integer say that integer, so different integers have different
words.

## Main definitions

- `Numeral.Token` — what a number word stands for
- `Numeral.Tally` — what has been read of a number
- `Numeral.read?` — the number that a text says

## Main statements

- `Numeral.foldlM_groupWords`, `Numeral.foldlM_scaledWords` — reading a group
- `Numeral.foldlM_groups` — reading group after group
- `Numeral.eq_of_words?_eq` — different integers have different words
- `Numeral.reading_exact` — which integers have texts, and that these are read as the integers
-/

namespace TurkishMorphology.Numeral

/-- What a number word stands for. -/
inductive Token where
  | one (digit : Nat)
  | ten (digit : Nat)
  | hundred
  | scale (power : Nat)
deriving DecidableEq

/-- The digit that a word of a table stands for. -/
def digit? (table : List Word) (w : Word) : Option Nat := ((table.drop 1).idxOf? w).map (· + 1)

def token? (w : Word) : Option Token :=
  if w = hundred then some .hundred
  else ((digit? ones w).map .one).or (((digit? tens w).map .ten).or ((digit? scales w).map .scale))

/-- What has been read of a number: the groups with their scale words, and the group at the end that
    no scale word has closed. -/
structure Tally where
  total : Nat
  group : Nat
deriving DecidableEq

namespace Tally

def add? (t : Tally) : Token → Option Tally
  | .one digit => some ⟨t.total, t.group + digit⟩
  | .ten digit => some ⟨t.total, t.group + 10 * digit⟩
  | .hundred => some ⟨t.total, if t.group = 0 then 100 else 100 * t.group⟩
  | .scale power =>
    if t.group ≠ 0 then some ⟨t.total + t.group * Nat.pow 1000 power, 0⟩
    else if power = 1 then some ⟨t.total + 1000, 0⟩
    else none

/-- The number that has been read. -/
def sum (t : Tally) : Nat := t.total + t.group

def addWord? (t : Tally) (w : Word) : Option Tally := (token? w).bind t.add?

end Tally

/-- The number that words say. -/
def readWords? (words : List Word) : Option Nat :=
  if words = [zero] then some 0
  else (words.foldlM Tally.addWord? ⟨0, 0⟩).map Tally.sum

/-- The number that a text says, word by word. -/
def read? (text : Word) : Option Nat := readWords? (text.splitOn ' ')

variable {n digit scale total group : Nat} {t : Tally} {words : List Word}

/-- A word of a table is read as the digit at whose position it stands. -/
theorem foldlM_digitWords {table : List Word} (token : Nat → Token)
    (htable : ∀ digit < table.length, digit ≠ 0 →
      table[digit]?.bind token? = some (token digit))
    (hdigit : digit < table.length) (t : Tally) :
    (digitWords table digit).foldlM Tally.addWord? t =
      if digit = 0 then some t else t.add? (token digit) := by
  unfold digitWords
  split
  · rfl
  · next hne =>
    have htoken := htable digit hdigit hne
    rw [List.getElem?_eq_getElem hdigit, Option.bind_some] at htoken
    simp [List.getElem?_eq_getElem hdigit, Tally.addWord?, htoken]

theorem foldlM_ones (h : digit < 10) :
    (digitWords ones digit).foldlM Tally.addWord? ⟨total, group⟩ =
      some ⟨total, group + digit⟩ := by
  rw [foldlM_digitWords .one (by decide) h]
  split
  · next hzero => rw [hzero, Nat.add_zero]
  · rfl

theorem foldlM_tens (h : digit < 10) :
    (digitWords tens digit).foldlM Tally.addWord? ⟨total, group⟩ =
      some ⟨total, group + 10 * digit⟩ := by
  rw [foldlM_digitWords .ten (by decide) h]
  split
  · next hzero => rw [hzero, Nat.mul_zero, Nat.add_zero]
  · rfl

/-- One hundred has no word for one. -/
theorem foldlM_hundreds (h : digit < 10) :
    ((if digit > 1 then digitWords ones digit else []) ++
      if digit > 0 then [hundred] else []).foldlM Tally.addWord? ⟨total, 0⟩ =
      some ⟨total, 100 * digit⟩ := by
  have hword (group : Nat) : Tally.addWord? ⟨total, group⟩ hundred =
      some ⟨total, if group = 0 then 100 else 100 * group⟩ := rfl
  rw [List.foldlM_append]
  by_cases hmany : digit > 1
  · rw [if_pos hmany, if_pos (by omega), foldlM_ones h, Nat.zero_add]
    simp [hword, show digit ≠ 0 by omega]
  · rw [if_neg hmany]
    by_cases hone : digit > 0
    · obtain rfl : digit = 1 := by omega
      rfl
    · obtain rfl : digit = 0 := by omega
      rfl

/-- The words of a number below one thousand are read as that number. -/
theorem foldlM_groupWords (h : n < 1000) :
    (groupWords n).foldlM Tally.addWord? ⟨total, 0⟩ = some ⟨total, n⟩ := by
  have hsum : 100 * (n / 100) + 10 * (n / 10 % 10) + n % 10 = n := by omega
  rw [groupWords, List.foldlM_append, List.foldlM_append, foldlM_hundreds (by omega)]
  simp only [Option.bind_eq_bind, Option.bind_some]
  rw [foldlM_tens (by omega), Option.bind_some, foldlM_ones (by omega), hsum]

/-- A scale word closes the group before it. -/
theorem foldlM_scaledWords (hgroup : group < 1000) (hscale : 0 < scale) (hlt : scale < 6) :
    (scaledWords scale group).foldlM Tally.addWord? ⟨total, 0⟩ =
      some ⟨total + group * Nat.pow 1000 scale, 0⟩ := by
  have hname (t : Tally) : (digitWords scales scale).foldlM Tally.addWord? t =
      t.add? (.scale scale) := by
    rw [foldlM_digitWords .scale (by decide) hlt, if_neg (by omega)]
  unfold scaledWords
  split
  · next hzero => simp [hzero]
  · next hne =>
    rw [List.foldlM_append]
    split
    · next hone =>
      obtain ⟨rfl, rfl⟩ := hone
      exact hname ⟨total, 0⟩
    · rw [foldlM_groupWords hgroup]
      simp [hname, Tally.add?, hne]

/-- The last group has no scale word. -/
theorem foldlM_scaledWords_zero (hgroup : group < 1000) :
    (scaledWords 0 group).foldlM Tally.addWord? ⟨total, 0⟩ = some ⟨total, group⟩ := by
  unfold scaledWords
  split
  · next hzero => rw [hzero]; rfl
  · rw [if_neg (by simp), List.foldlM_append, foldlM_groupWords hgroup]
    rfl

/-- The groups of an integer from a scale word on, one after the other. -/
theorem foldlM_groups (n total : Nat) (hscale : scale < 6) :
    (((List.range (scale + 1)).reverse.flatMap fun scale =>
        scaledWords scale (n / Nat.pow 1000 scale % 1000)).foldlM Tally.addWord? ⟨total, 0⟩).map
      Tally.sum = some (total + n % Nat.pow 1000 (scale + 1)) := by
  induction scale generalizing total with
  | zero =>
    have hgroup : n / Nat.pow 1000 0 % 1000 = n % Nat.pow 1000 (0 + 1) := by
      simp [Nat.pow_eq]
    rw [List.range_one, List.reverse_singleton, List.flatMap_singleton,
      foldlM_scaledWords_zero (Nat.mod_lt _ (by decide)), hgroup]
    rfl
  | succ scale ih =>
    have hsplit : n % Nat.pow 1000 (scale + 1 + 1) =
        n % Nat.pow 1000 (scale + 1) +
          n / Nat.pow 1000 (scale + 1) % 1000 * Nat.pow 1000 (scale + 1) := by
      simp only [Nat.pow_eq]
      rw [Nat.mod_pow_succ, Nat.mul_comm (1000 ^ (scale + 1))]
    rw [List.range_succ, List.reverse_append, List.reverse_singleton, List.singleton_append,
      List.flatMap_cons, List.foldlM_append,
      foldlM_scaledWords (Nat.mod_lt _ (by decide)) (by omega : 0 < scale + 1) hscale,
      Option.bind_eq_bind, Option.bind_some, ih _ (by omega), hsplit]
    congr 1
    omega

theorem isSome_words?_iff : (words? n).isSome = true ↔ n ≤ largest := by
  unfold words?
  split
  · simp; omega
  · split
    · simp; omega
    · simp; omega

/-- The words of an integer are read as that integer. -/
theorem readWords?_of_words? (h : words? n = some words) : readWords? words = some n := by
  have hle : n ≤ largest := isSome_words?_iff.mp (by rw [h]; rfl)
  rcases mem_of_words? h with ⟨rfl, rfl⟩ | ⟨hne, -⟩
  · rfl
  · have hwords : (words.foldlM Tally.addWord? ⟨0, 0⟩).map Tally.sum = some n := by
      have hgroups := foldlM_groups n 0 (by decide : 5 < 6)
      have hlt : n < Nat.pow 1000 (5 + 1) := Nat.lt_succ_of_le hle
      rw [Nat.zero_add, Nat.mod_eq_of_lt hlt] at hgroups
      rw [words?, if_neg (by omega), if_neg hne] at h
      cases h
      exact hgroups
    rw [readWords?, if_neg ?_, hwords]
    -- The word for zero can be read on its own only.
    rintro rfl
    cases hwords

/-- Different integers have different words. -/
theorem eq_of_words?_eq {m : Nat} (hm : words? m = some words) (hn : words? n = some words) :
    m = n :=
  Option.some_inj.mp ((readWords?_of_words? hm).symm.trans (readWords?_of_words? hn))

theorem space_not_mem_of_mem_words? (h : words? n = some words) {w : Word} (hw : w ∈ words) :
    ' ' ∉ w := by
  simpa using all_of_words? (p := fun w => !w.contains ' ') h (by decide) hw

/-- The words of a text are found again. -/
theorem splitOn_join_of_words? (h : words? n = some words) : (join words).splitOn ' ' = words :=
  List.splitOn_intercalate ' ' (fun _ => space_not_mem_of_mem_words? h) (words?_ne_nil h)

/-- The text of an integer is read as that integer. -/
theorem read?_join (h : words? n = some words) : read? (join words) = some n := by
  rw [read?, splitOn_join_of_words? h, readWords?_of_words? h]

/-- Integers have texts up to the largest one. Their words are all found in the tables, their texts
    are read as the integers themselves, and so no two integers have the same text. -/
theorem reading_exact :
    (∀ n ≤ largest, ∃ words, spell? n = some words ∧ ofNat? n = some (join words) ∧
      read? (join words) = some n) ∧
    (∀ n, largest < n → ofNat? n = none) ∧
    ∀ m n text, ofNat? m = some text → ofNat? n = some text → m = n := by
  refine ⟨fun n hn => ?_, fun n hn => ?_, fun m n text hm hn => ?_⟩
  · obtain ⟨words, hwords⟩ := Option.isSome_iff_exists.mp (isSome_words?_iff.mpr hn)
    exact ⟨words, by rw [spell?_eq_words?, hwords], by rw [ofNat?, hwords]; rfl, read?_join hwords⟩
  · rw [ofNat?, words?, if_pos hn]
    rfl
  · obtain ⟨words, hwords, rfl⟩ := Option.map_eq_some_iff.mp hm
    obtain ⟨words', hwords', htext⟩ := Option.map_eq_some_iff.mp hn
    have hread := read?_join hwords'
    rw [htext, read?_join hwords] at hread
    exact Option.some_inj.mp hread

/-- One hundred and one thousand and one. -/
theorem reading_exact_thousands :
    101001 ≤ largest ∧ ofNat? 101001 = some "yüz bir bin bir".toList ∧
      read? "yüz bir bin bir".toList = some 101001 := by
  have hle : 101001 ≤ largest := by decide
  obtain ⟨words, hspell, htext, hread⟩ := reading_exact.1 101001 hle
  have hwords : spell? 101001 =
      some [hundred, ['b', 'i', 'r'], ['b', 'i', 'n'], ['b', 'i', 'r']] := by
    rw [spell?_eq_words?]
    decide
  cases hspell.symm.trans hwords
  exact ⟨hle, htext, hread⟩

end TurkishMorphology.Numeral
