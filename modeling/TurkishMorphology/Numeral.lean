import TurkishMorphology.Word
/-!
# Numbers in words

Digits are read aloud as number words, and suffixes after digits harmonise with those words: `3'ü`
like `üçü`. An integer is read in groups of three digits, each followed by its scale word; one
thousand is `bin`. A decimal part follows `virgül`, its leading zeros read one by one.

## Main definitions

- `Numeral.words?`, `Numeral.ofNat?` — the words of an integer, and their text
- `Numeral.isNumeral` — digits with at most one comma inside
- `Numeral.ofDigits?` — the text of a string of digits

## Design notes

The largest integer with a reading has 18 digits; that bound also limits the significant digits on
either side of a comma.
-/

namespace TurkishMorphology.Numeral

/-- The words for one to nine, at their own positions. -/
def ones : List Word := [
  [], ['b', 'i', 'r'], ['i', 'k', 'i'], ['ü', 'ç'], ['d', 'ö', 'r', 't'], ['b', 'e', 'ş'],
  ['a', 'l', 't', 'ı'], ['y', 'e', 'd', 'i'], ['s', 'e', 'k', 'i', 'z'],
  ['d', 'o', 'k', 'u', 'z']]

/-- The words for ten to ninety, at the position of their first digit. -/
def tens : List Word := [
  [], ['o', 'n'], ['y', 'i', 'r', 'm', 'i'], ['o', 't', 'u', 'z'], ['k', 'ı', 'r', 'k'],
  ['e', 'l', 'l', 'i'], ['a', 'l', 't', 'm', 'ı', 'ş'], ['y', 'e', 't', 'm', 'i', 'ş'],
  ['s', 'e', 'k', 's', 'e', 'n'], ['d', 'o', 'k', 's', 'a', 'n']]

/-- The words for the powers of one thousand. -/
def scales : List Word := [
  [], ['b', 'i', 'n'], ['m', 'i', 'l', 'y', 'o', 'n'], ['m', 'i', 'l', 'y', 'a', 'r'],
  ['t', 'r', 'i', 'l', 'y', 'o', 'n'], ['k', 'a', 't', 'r', 'i', 'l', 'y', 'o', 'n']]

def hundred : Word := ['y', 'ü', 'z']

def zero : Word := ['s', 'ı', 'f', 'ı', 'r']

def comma : Word := ['v', 'i', 'r', 'g', 'ü', 'l']

/-- The largest integer with a reading. -/
def largest : Nat := 999999999999999999

/-- The words of a digit in a table, none for zero. -/
def digitWords (table : List Word) (digit : Nat) : List Word :=
  if digit = 0 then [] else (table[digit]?).toList

/-- The words of a number below one thousand. One hundred is `yüz` alone. -/
def groupWords (n : Nat) : List Word :=
  let hundreds := n / 100
  (if hundreds > 1 then digitWords ones hundreds else [])
    ++ (if hundreds > 0 then [hundred] else [])
    ++ digitWords tens (n / 10 % 10)
    ++ digitWords ones (n % 10)

/-- The words of a group of three digits at a power of one thousand. One thousand is `bin`
    alone. -/
def scaledWords (scale group : Nat) : List Word :=
  if group = 0 then []
  else (if scale = 1 ∧ group = 1 then [] else groupWords group) ++ digitWords scales scale

/-- The words of an integer up to the largest one. -/
def words? (n : Nat) : Option (List Word) :=
  if n > largest then none
  else if n = 0 then some [zero]
  else some <| [5, 4, 3, 2, 1, 0].flatMap fun scale =>
    scaledWords scale (n / Nat.pow 1000 scale % 1000)

def join (words : List Word) : Word := List.intercalate [' '] words

/-- The text of an integer up to the largest one. -/
def ofNat? (n : Nat) : Option Word := (words? n).map join

/-- Whether the word consists of one or more digits 0 to 9. -/
def isDigits (w : Word) : Bool := !w.isEmpty && w.all Char.isDigit

/-- Whether the word is a string of digits with at most one comma between digits. -/
def isNumeral (w : Word) : Bool :=
  match w.splitOnce? ',' with
  | some (integer, fraction) => isDigits integer && isDigits fraction
  | none => isDigits w

/-- The digits from the first one that is not zero. -/
def significant (w : Word) : Word := w.dropWhile (· == '0')

/-- The number that digits write. -/
def value (w : Word) : Nat := w.foldl (fun n c => 10 * n + (c.toNat - '0'.toNat)) 0

/-- The number that a word of digits writes, if its significant digits are at most 18. -/
def value? (w : Word) : Option Nat :=
  if isDigits w && (significant w).length ≤ 18 then some (value w) else none

/-- The words of the digits after the comma: each leading zero on its own, then the rest as one
    number. -/
def fractionWords? (fraction : Word) : Option (List Word) :=
  if isDigits fraction then
    let rest := significant fraction
    let zeros := List.replicate (fraction.length - rest.length) zero
    if rest.isEmpty then some zeros
    else ((value? rest).bind ofNat?).map fun text => zeros ++ [text]
  else none

/-- The text of a string of digits. -/
def ofDigits? (w : Word) : Option Word :=
  match w.splitOnce? ',' with
  | none => (value? w).bind ofNat?
  | some (integer, fraction) => do
    let whole ← (value? integer).bind ofNat?
    let decimals ← fractionWords? fraction
    return join (whole :: comma :: decimals)

end TurkishMorphology.Numeral
