import TurkishMorphology.Proofs.Numeral
import TurkishMorphology.Proofs.Result
import Mathlib.Data.Nat.Digits.Lemmas
/-!
# The tables of number words

The words of an integer come from tables: one for ones, one for tens, and one for the scale words,
which are looked up at the positions of the groups of three digits. A look-up past the end of a
table would find nothing. It never happens up to the largest integer that has words, and that
integer is the largest for which it does not.

## Main definitions

- `Numeral.digitEntries?` — looking up a digit, which fails past the end of the table
- `Numeral.spell?` — the words of an integer, group by group, failing with any look-up

## Main statements

- `Numeral.zipIdx_digits` — the groups of an integer with their positions
- `Numeral.spell?_eq_words?` — no look-up fails unless the integer is too large
-/

namespace TurkishMorphology.Numeral

/-- The words of a digit in a table, none for zero. Past the end of the table there is no answer. -/
def digitEntries? (table : List Word) (digit : Nat) : Option (List Word) :=
  if digit = 0 then some [] else table[digit]?.map fun w => [w]

/-- The words of a number below one thousand, if all look-ups find something. -/
def groupEntries? (n : Nat) : Option (List Word) := do
  let hundreds ← digitEntries? ones (if n / 100 > 1 then n / 100 else 0)
  let tens ← digitEntries? tens (n / 10 % 10)
  let ones ← digitEntries? ones (n % 10)
  return hundreds ++ (if n / 100 > 0 then [hundred] else []) ++ tens ++ ones

/-- The words of a group and its scale word, if all look-ups find something. -/
def scaledEntries? (scale group : Nat) : Option (List Word) :=
  if group = 0 then some []
  else
    (if scale = 1 ∧ group = 1 then some [] else groupEntries? group).bind fun words =>
      (digitEntries? scales scale).map fun name => words ++ name

/-- The words of an integer, from its first group of three digits to its last one. -/
def spell? (n : Nat) : Option (List Word) :=
  if n = 0 then some [zero]
  else ((Nat.digits 1000 n).zipIdx.reverse.mapM fun p => scaledEntries? p.2 p.1).map List.flatten

variable {n digit scale group : Nat}

theorem digitEntries?_eq {table : List Word} (h : digit < table.length) :
    digitEntries? table digit = some (digitWords table digit) := by
  unfold digitEntries? digitWords
  split
  · rfl
  · rw [List.getElem?_eq_getElem h]
    rfl

theorem groupEntries?_eq (h : n < 1000) : groupEntries? n = some (groupWords n) := by
  have hhundreds : digitWords ones (if n / 100 > 1 then n / 100 else 0) =
      if n / 100 > 1 then digitWords ones (n / 100) else [] := by
    split <;> rfl
  have hlt : (if n / 100 > 1 then n / 100 else 0) < ones.length := by
    show _ < 10
    split <;> omega
  rw [groupEntries?, digitEntries?_eq hlt, digitEntries?_eq (show n / 10 % 10 < 10 by omega),
    digitEntries?_eq (show n % 10 < 10 by omega), hhundreds]
  rfl

theorem scaledEntries?_eq (hgroup : group < 1000) (hscale : scale < 6) :
    scaledEntries? scale group = some (scaledWords scale group) := by
  unfold scaledEntries? scaledWords
  split
  · rfl
  · rw [digitEntries?_eq (show scale < scales.length from hscale), groupEntries?_eq hgroup]
    split <;> rfl

/-- There is no scale word for a seventh group. -/
theorem scaledEntries?_eq_none (hgroup : group ≠ 0) (hscale : 6 ≤ scale) :
    scaledEntries? scale group = none := by
  have hname : digitEntries? scales scale = none := by
    have hlength : scales.length ≤ scale := hscale
    rw [digitEntries?, if_neg (by omega), List.getElem?_eq_none hlength]
    rfl
  rw [scaledEntries?, if_neg hgroup, hname]
  exact Option.bind_fun_none _

/-- The groups of an integer with their positions. -/
theorem zipIdx_digits (n : Nat) : (Nat.digits 1000 n).zipIdx =
    (List.range (Nat.digits 1000 n).length).map fun i => (n / Nat.pow 1000 i % 1000, i) := by
  refine List.ext_getElem (by simp) fun i hi _ => ?_
  have hlt : i < (Nat.digits 1000 n).length := by simpa using hi
  have hdigit := Nat.getD_digits n i (by decide : 2 ≤ 1000)
  rw [List.getD_eq_getElem?_getD, List.getElem?_eq_getElem hlt, Option.getD_some] at hdigit
  simp only [List.getElem_zipIdx, List.getElem_map, List.getElem_range, Nat.pow_eq, ← hdigit,
    Nat.zero_add]

/-- Empty pieces in front do not count. -/
theorem flatMap_reverse_range {α : Type} {f : Nat → List α} {k m : Nat} (hkm : k ≤ m)
    (hf : ∀ i, k ≤ i → f i = []) :
    (List.range m).reverse.flatMap f = (List.range k).reverse.flatMap f := by
  induction m, hkm using Nat.le_induction with
  | base => rfl
  | succ m hkm ih =>
    rw [List.range_succ, List.reverse_append, List.reverse_singleton, List.singleton_append,
      List.flatMap_cons, hf m hkm, List.nil_append, ih]

theorem length_digits_le_iff : (Nat.digits 1000 n).length ≤ 6 ↔ n ≤ largest := by
  rw [Nat.digits_length_le_iff (by decide)]
  exact Nat.lt_succ_iff

/-- The words of an integer are those of its groups. -/
theorem words?_eq_flatMap_digits (hne : n ≠ 0) (hle : n ≤ largest) :
    words? n = some ((Nat.digits 1000 n).zipIdx.reverse.flatMap fun p => scaledWords p.2 p.1) := by
  have hempty : ∀ i, (Nat.digits 1000 n).length ≤ i →
      scaledWords i (n / Nat.pow 1000 i % 1000) = [] := by
    intro i hi
    have hlt : n < Nat.pow 1000 i := (Nat.digits_length_le_iff (by decide) n).mp hi
    rw [Nat.div_eq_of_lt hlt]
    rfl
  rw [words?, if_neg (by omega), if_neg hne, zipIdx_digits, ← List.map_reverse, List.flatMap_map,
    ← flatMap_reverse_range (length_digits_le_iff.mpr hle) hempty]
  rfl

/-- The first group of an integer that is too large has no scale word. -/
theorem exists_scaledEntries?_eq_none (hn : largest < n) :
    ∃ p ∈ (Nat.digits 1000 n).zipIdx, scaledEntries? p.2 p.1 = none := by
  have hne : n ≠ 0 := by omega
  have hlength : 6 < (Nat.digits 1000 n).length :=
    Nat.lt_of_not_le fun h => Nat.not_le.mpr hn (length_digits_le_iff.mp h)
  refine ⟨((Nat.digits 1000 n).getLast (Nat.digits_ne_nil_iff_ne_zero.mpr hne),
    (Nat.digits 1000 n).length - 1), ?_, ?_⟩
  · rw [List.mem_zipIdx_iff_getElem?, List.getLast_eq_getElem]
    exact List.getElem?_eq_getElem _
  · exact scaledEntries?_eq_none (Nat.getLast_digit_ne_zero 1000 hne) (Nat.le_sub_one_of_lt hlength)

/-- All look-ups find something exactly up to the largest integer with words. -/
theorem spell?_eq_words? (n : Nat) : spell? n = words? n := by
  by_cases hne : n = 0
  · rw [hne]
    rfl
  rw [spell?, if_neg hne]
  by_cases hle : n ≤ largest
  · have hentries : ∀ p ∈ (Nat.digits 1000 n).zipIdx.reverse,
        scaledEntries? p.2 p.1 = some (scaledWords p.2 p.1) := by
      intro p hp
      have hp := List.mem_zipIdx_iff_getElem?.mp (List.mem_reverse.mp hp)
      have hlt := (List.getElem?_eq_some_iff.mp hp).1
      exact scaledEntries?_eq (Nat.digits_lt_base (by decide) (List.mem_of_getElem? hp))
        (Nat.lt_of_lt_of_le hlt (length_digits_le_iff.mpr hle))
    rw [Option.mapM_eq_some_map hentries, words?_eq_flatMap_digits hne hle]
    rfl
  · obtain ⟨p, hp, hnone⟩ := exists_scaledEntries?_eq_none (Nat.lt_of_not_le hle)
    rw [Option.mapM_eq_none (List.mem_reverse.mpr hp) hnone, words?, if_pos (by omega)]
    rfl

end TurkishMorphology.Numeral
