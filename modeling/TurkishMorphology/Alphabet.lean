import TurkishMorphology.Text.Case
/-!
# The Turkish alphabet

The 35 letters of the alphabet: the 29 letters of the standard alphabet, the circumflexed vowels
â, î and û, and the foreign letters q, w and x. A letter is known by its lowercase and its
uppercase character. Every other character stands for no letter.

## Main definitions

- `Sound` — what a letter sounds like: a vowel, a consonant, or nothing
- `Letter` — a letter with its two characters and its sound
- `Alphabet.letters`, `Alphabet.letter?`, `Alphabet.letter` — the letters, and look-up by character
- `Alphabet.voice?`, `Alphabet.devoice?` — the alternation p/b, ç/c, t/d, k/ğ, keeping case
- `Alphabet.lower`, `Alphabet.withoutCircumflex` — case and circumflex

## Design notes

Frontness and rounding belong to vowels, voicelessness and continuance to consonants, so they are
arguments of the two constructors of `Sound` and cannot be mixed.
-/

namespace TurkishMorphology

/-- What a letter sounds like. -/
inductive Sound where
  | vowel (frontal rounded : Bool)
  | consonant (voiceless continuant : Bool)
  | silent
deriving DecidableEq, Inhabited

structure Letter where
  char : Char
  upper : Char
  /-- The position in the alphabet, counted from one; zero for no letter. -/
  index : Nat
  sound : Sound
  /-- The nearest letter of the English alphabet. -/
  plain : Char
  /-- Whether the letter occurs in foreign words only. -/
  foreign : Bool := false
deriving DecidableEq, Inhabited

namespace Letter

/-- The placeholder for characters outside the alphabet. -/
def undefined : Letter := ⟨'\x00', '\x00', 0, .silent, '\x00', false⟩

def isUndefined (l : Letter) : Bool := l.index == 0

def isVowel (l : Letter) : Bool :=
  match l.sound with
  | .vowel .. => true
  | _ => false

def isFrontal (l : Letter) : Bool :=
  match l.sound with
  | .vowel frontal _ => frontal
  | _ => false

def isRounded (l : Letter) : Bool :=
  match l.sound with
  | .vowel _ rounded => rounded
  | _ => false

def isVoiceless (l : Letter) : Bool :=
  match l.sound with
  | .consonant voiceless _ => voiceless
  | _ => false

def isContinuant (l : Letter) : Bool :=
  match l.sound with
  | .consonant _ continuant => continuant
  | _ => false

def isConsonant (l : Letter) : Bool :=
  match l.sound with
  | .consonant .. => true
  | _ => false

/-- A voiceless consonant that is not a continuant: p, ç, t or k. -/
def isVoicelessStop (l : Letter) : Bool := l.isVoiceless && !l.isContinuant

/-- Whether the letter is also a letter of the English alphabet. -/
def isAscii (l : Letter) : Bool := !l.isUndefined && l.char == l.plain

end Letter

namespace Alphabet

/-- The letters in alphabetical order. -/
def letters : List Letter := [
  ⟨'a', 'A', 1, .vowel false false, 'a', false⟩,
  ⟨'â', 'Â', 2, .vowel false false, 'a', false⟩,
  ⟨'b', 'B', 3, .consonant false false, 'b', false⟩,
  ⟨'c', 'C', 4, .consonant false false, 'c', false⟩,
  ⟨'ç', 'Ç', 5, .consonant true false, 'c', false⟩,
  ⟨'d', 'D', 6, .consonant false false, 'd', false⟩,
  ⟨'e', 'E', 7, .vowel true false, 'e', false⟩,
  ⟨'f', 'F', 8, .consonant true true, 'f', false⟩,
  ⟨'g', 'G', 9, .consonant false false, 'g', false⟩,
  ⟨'ğ', 'Ğ', 10, .consonant false true, 'g', false⟩,
  ⟨'h', 'H', 11, .consonant true true, 'h', false⟩,
  ⟨'ı', 'I', 12, .vowel false false, 'i', false⟩,
  ⟨'i', 'İ', 13, .vowel true false, 'i', false⟩,
  ⟨'î', 'Î', 14, .vowel true false, 'i', false⟩,
  ⟨'j', 'J', 15, .consonant false true, 'j', false⟩,
  ⟨'k', 'K', 16, .consonant true false, 'k', false⟩,
  ⟨'l', 'L', 17, .consonant false true, 'l', false⟩,
  ⟨'m', 'M', 18, .consonant false false, 'm', false⟩,
  ⟨'n', 'N', 19, .consonant false false, 'n', false⟩,
  ⟨'o', 'O', 20, .vowel false true, 'o', false⟩,
  ⟨'ö', 'Ö', 21, .vowel true true, 'o', false⟩,
  ⟨'p', 'P', 22, .consonant true false, 'p', false⟩,
  ⟨'q', 'Q', 23, .consonant false false, 'q', true⟩,
  ⟨'r', 'R', 24, .consonant false true, 'r', false⟩,
  ⟨'s', 'S', 25, .consonant true true, 's', false⟩,
  ⟨'ş', 'Ş', 26, .consonant true true, 's', false⟩,
  ⟨'t', 'T', 27, .consonant true false, 't', false⟩,
  ⟨'u', 'U', 28, .vowel false true, 'u', false⟩,
  ⟨'û', 'Û', 29, .vowel false true, 'u', false⟩,
  ⟨'ü', 'Ü', 30, .vowel true true, 'u', false⟩,
  ⟨'v', 'V', 31, .consonant false true, 'v', false⟩,
  ⟨'w', 'W', 32, .consonant false true, 'w', true⟩,
  ⟨'x', 'X', 33, .consonant true true, 'x', true⟩,
  ⟨'y', 'Y', 34, .consonant false true, 'y', false⟩,
  ⟨'z', 'Z', 35, .consonant false true, 'z', false⟩]

/-- The letter that a character writes, in either case. -/
def letter? (c : Char) : Option Letter := letters.find? fun l => l.char == c || l.upper == c

/-- The letter that a character writes, or the placeholder. -/
def letter (c : Char) : Letter := (letter? c).getD .undefined

def isVowel (c : Char) : Bool := (letter c).isVowel

theorem mem_of_letter? {c : Char} {l : Letter} (h : letter? c = some l) :
    l ∈ letters ∧ (l.char = c ∨ l.upper = c) := by
  have hm := List.mem_of_find?_eq_some h
  have hp := List.find?_some h
  exact ⟨hm, by simpa using hp⟩

/-- Each voiceless stop with its voiced counterpart. -/
def voicingPairs : List (Char × Char) := [('p', 'b'), ('ç', 'c'), ('t', 'd'), ('k', 'ğ')]

/-- The voiced counterpart of a voiceless stop. -/
def voicedLetter? (l : Letter) : Option Letter :=
  (voicingPairs.find? fun p => p.1 == l.char).bind fun p => letter? p.2

/-- The voiceless counterpart of b, c, d or ğ. -/
def devoicedLetter? (l : Letter) : Option Letter :=
  (voicingPairs.find? fun p => p.2 == l.char).bind fun p => letter? p.1

/-- The character of `target` in the case in which `c` writes `source`. -/
def inCaseOf (c : Char) (source target : Letter) : Char :=
  if c == source.upper && c != source.char then target.upper else target.char

/-- The voiced counterpart of a character, in the same case. -/
def voice? (c : Char) : Option Char := do
  let l ← letter? c
  let v ← voicedLetter? l
  return inCaseOf c l v

/-- The voiceless counterpart of a character, in the same case. -/
def devoice? (c : Char) : Option Char := do
  let l ← letter? c
  let v ← devoicedLetter? l
  return inCaseOf c l v

/-- The lowercase form of a character: I becomes ı and İ becomes i, other letters follow the
    alphabet, and characters outside it follow their general lowercase mapping. -/
def lower (c : Char) : Char :=
  match letter? c with
  | some l => l.char
  | none => Text.lowercase c

def circumflexPairs : List (Char × Char) :=
  [('â', 'a'), ('î', 'i'), ('û', 'u'), ('Â', 'A'), ('Î', 'İ'), ('Û', 'U')]

def hasCircumflex (c : Char) : Bool := circumflexPairs.any fun p => p.1 == c

/-- The plain vowel in place of a circumflexed one. -/
def withoutCircumflex (c : Char) : Char := (circumflexPairs.lookup c).getD c

end Alphabet

end TurkishMorphology
