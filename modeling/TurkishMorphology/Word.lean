import TurkishMorphology.Alphabet
import TurkishMorphology.Text.Space
import TurkishMorphology.Text.Alphanumeric
/-!
# Words

A word is the list of its characters; lengths and positions count characters. This module holds
what the rest of the library asks of a word: its vowels, whether it has letters or digits at all,
and the cuts made when text is read.

## Main definitions

- `Word` — a list of characters
- `Word.firstVowel?`, `Word.lastVowel?`, `Word.vowelCount` — the vowels of a word
- `Word.isBlank`, `Word.hasAlphanumeric` — words without visible or without audible content
- `Word.slice`, `Word.withLast` — parts of a word, and a word with another last character
- `Word.trim`, `Word.pieces`, `Word.splitOnce?`, `Word.lines` — cutting text
-/

namespace TurkishMorphology

/-- A word, as the list of its characters. -/
abbrev Word := List Char

namespace Word

instance : Hashable Word := @instHashableList Char instHashableChar

def text (w : Word) : String := String.ofList w

def firstVowel? (w : Word) : Option Char := w.find? Alphabet.isVowel

def lastVowel? (w : Word) : Option Char := w.reverse.find? Alphabet.isVowel

def hasVowel (w : Word) : Bool := w.any Alphabet.isVowel

/-- The number of vowels, which is the number of syllables of a Turkish word. -/
def vowelCount (w : Word) : Nat := w.countP Alphabet.isVowel

/-- Whether the word is empty or white space throughout. -/
def isBlank (w : Word) : Bool := w.all Text.isSpace

/-- Whether some character is a letter or a digit. -/
def hasAlphanumeric (w : Word) : Bool := w.any Text.isAlphanumeric

/-- The characters from position `start` up to but not including `stop`; positions beyond the
    end count as the end. -/
def slice (w : Word) (start stop : Nat) : Word := (w.take stop).drop start

/-- The word with its last character replaced. -/
def withLast (w : Word) (c : Char) : Word :=
  if w.isEmpty then [] else w.dropLast ++ [c]

def lower (w : Word) : Word := w.map Alphabet.lower

/-- The word with plain vowels in place of circumflexed ones. -/
def withoutCircumflex (w : Word) : Word := w.map Alphabet.withoutCircumflex

/-- The word without white space at its ends. -/
def trim (w : Word) : Word :=
  ((w.dropWhile Text.isSpace).reverse.dropWhile Text.isSpace).reverse

/-- The pieces between the occurrences of a separator; there is always at least one. -/
def pieces (separator : Char) : Word → List Word
  | [] => [[]]
  | c :: cs =>
    if c == separator then [] :: pieces separator cs
    else
      match pieces separator cs with
      | [] => [[c]]
      | p :: ps => (c :: p) :: ps

/-- What stands before and after the first occurrence of a separator. -/
def splitOnce? (separator : Char) : Word → Option (Word × Word)
  | [] => none
  | c :: cs =>
    if c == separator then some ([], cs)
    else (splitOnce? separator cs).map fun (before, after) => (c :: before, after)

/-- The word without the given end, if it has that end. -/
def dropEnd? (ending w : Word) : Option Word :=
  if ending.isSuffixOf w then some (w.take (w.length - ending.length)) else none

/-- The lines of a text. A line ends at a line feed, and a carriage return before it is dropped;
    no line follows a final line feed. -/
def lines (w : Word) : List Word :=
  let all := pieces '\n' w
  let ended := all.dropLast.map fun line => (dropEnd? ['\r'] line).getD line
  match all.getLast? with
  | some [] | none => ended
  | some rest => ended ++ [rest]

theorem lastVowel?_append (v w : Word) :
    lastVowel? (v ++ w) = (lastVowel? w).or (lastVowel? v) := by
  simp [lastVowel?, List.find?_append]

theorem hasVowel_eq_isSome_lastVowel? (w : Word) : hasVowel w = (lastVowel? w).isSome := by
  rw [lastVowel?, Bool.eq_iff_iff, hasVowel, List.any_eq_true, List.find?_isSome]
  simp

theorem hasAlphanumeric_append (v w : Word) :
    hasAlphanumeric (v ++ w) = (hasAlphanumeric v || hasAlphanumeric w) := by
  simp [hasAlphanumeric]

theorem splitOnce?_eq_some {separator : Char} {w before after : Word}
    (h : splitOnce? separator w = some (before, after)) :
    w = before ++ separator :: after ∧ separator ∉ before := by
  induction w generalizing before with
  | nil => simp [splitOnce?] at h
  | cons c cs ih =>
    rw [splitOnce?] at h
    split at h
    · simp_all
    · next hc =>
      obtain ⟨⟨b, a⟩, hs, he⟩ := Option.map_eq_some_iff.mp h
      simp only [Prod.mk.injEq] at he
      obtain ⟨rfl, rfl⟩ := he
      obtain ⟨rfl, hb⟩ := ih hs
      have hne : ¬ separator = c := fun e => hc (by simp [e])
      simp [hb, hne]

end Word

end TurkishMorphology
