import TurkishMorphology.Lexeme
import TurkishMorphology.Phonetics.Attribute
/-!
# The phonetic context of a word

The attributes of a word are read off its last character and its last vowel. When something is
appended, the new attributes can be computed from the old ones and the addition alone: the vowel
of the addition counts if it has one, and the vowel of the word before it otherwise.

## Main definitions

- `Phonetics.ofWord` — the attributes of a word
- `Phonetics.invert` — front and back exchanged
- `Phonetics.ofSurface` — the attributes of a word of a lexeme, whose harmony may be inverted
- `Phonetics.after` — the attributes after appending to a word with known attributes
- `Phonetics.firstLetter?` — how a suffix begins
-/

namespace TurkishMorphology.Phonetics

/-- What the last vowel contributes to the attributes. -/
def vowelAttributes : Option Char → List PhoneticAttribute
  | none => [.hasNoVowel]
  | some v =>
    let l := Alphabet.letter v
    [if l.isRounded then .lastVowelRounded else .lastVowelUnrounded,
      if l.isFrontal then .lastVowelFrontal else .lastVowelBack]

/-- What the last character contributes to the attributes. A character outside the alphabet
    counts as a consonant that is not voiceless. -/
def letterAttributes (c : Char) : List PhoneticAttribute :=
  let l := Alphabet.letter c
  (if l.isVowel then .lastLetterVowel else .lastLetterConsonant) ::
    if l.isVoiceless then
      if l.isContinuant then [.lastLetterVoiceless]
      else [.lastLetterVoiceless, .lastLetterVoicelessStop]
    else [.lastLetterNotVoiceless]

/-- The attributes of a word. The empty word has none. -/
def ofWord (w : Word) : PhoneticAttributes :=
  match w.getLast? with
  | none => ∅
  | some c => .ofList (vowelAttributes w.lastVowel? ++ letterAttributes c)

/-- Front and back exchanged; a set with neither stays as it is. -/
def invert (s : PhoneticAttributes) : PhoneticAttributes :=
  if s.contains .lastVowelBack then (s.erase .lastVowelBack).insert .lastVowelFrontal
  else if s.contains .lastVowelFrontal then (s.erase .lastVowelFrontal).insert .lastVowelBack
  else s

/-- The attributes of a word of a lexeme with the given attributes. -/
def ofSurface (w : Word) (lexeme : LexemeAttributes) : PhoneticAttributes :=
  if lexeme.contains .inverseHarmony then invert (ofWord w) else ofWord w

/-- The attributes that describe the last vowel. -/
def vowelFacts : List PhoneticAttribute :=
  [.lastVowelFrontal, .lastVowelBack, .lastVowelRounded, .lastVowelUnrounded]

/-- The attributes after `appended` is added to a word with the attributes `previous`. An
    addition without letters or digits changes nothing, and one without a vowel keeps what is
    known of the vowel before it. -/
def after (previous : PhoneticAttributes) (appended : Word) : PhoneticAttributes :=
  if appended.isBlank || !appended.hasAlphanumeric then previous
  else
    let own := ofWord appended
    if !own.contains .hasNoVowel || previous.contains .hasNoVowel then own
    else (vowelFacts.filter previous.contains).foldl FlagSet.insert (own.erase .hasNoVowel)

/-- How a suffix begins, if it has letters. -/
def firstLetter? (w : Word) : Option PhoneticAttribute :=
  w.head?.map fun c => if Alphabet.isVowel c then .firstLetterVowel else .firstLetterConsonant

end TurkishMorphology.Phonetics
