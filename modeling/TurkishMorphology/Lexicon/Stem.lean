import TurkishMorphology.Lexicon.Error
import TurkishMorphology.Root
/-!
# Stems and their alternations

Most lexemes have one root, the lemma root. Where the root changes its shape before some suffixes
there are two: the lemma root, which wants a consonant next, and the altered stem, which wants a
vowel. The changes are applied one after the other: the final stop is voiced, the final letter
doubled, the vowel before the last letter dropped, the final vowel dropped before the progressive.
Irregular stems are listed.

## Main definitions

- `irregularStem?` — the listed irregular stem of a lemma root
- `Alternation` — a stem under change, with the expectations collected so far
- `Lexeme.roots` — the roots of a lexeme
- `Lexeme.rootsWithPlain` — the same, with copies free of circumflexes
-/

namespace TurkishMorphology

/-- Irregular stems by lemma root and part of speech; without a part of speech an entry holds for
    all of them. -/
def irregularStems : List ((Word × Option PrimaryPos) × Word) := [
  ((['b', 'e', 'n'], some .pronoun), ['b', 'a', 'n']),
  ((['s', 'e', 'n'], some .pronoun), ['s', 'a', 'n']),
  ((['o'], some .pronoun), ['o', 'n']),
  ((['b', 'u'], some .pronoun), ['b', 'u', 'n']),
  ((['ş', 'u'], some .pronoun), ['ş', 'u', 'n']),
  ((['d', 'e'], some .verb), ['d', 'i']),
  ((['y', 'e'], some .verb), ['y', 'i']),
  ((['s', 'u'], none), ['s', 'u', 'y'])]

/-- The irregular stem of a lemma root. An entry for its part of speech comes before a general
    one. -/
def irregularStem? (lemmaRoot : Word) (pos : PrimaryPos) : Option Word :=
  (irregularStems.lookup (lemmaRoot, some pos)).or (irregularStems.lookup (lemmaRoot, none))

/-- A stem under change, and what the unaltered and the altered root expect of the next suffix. -/
structure Alternation where
  stem : Word
  unaltered : PhoneticExpectations := ∅
  altered : PhoneticExpectations := ∅

namespace Alternation

/-- The alternation after a change to `stem`: the altered root wants a vowel, and the unaltered
    one, where it is exclusive, a consonant. -/
def change (a : Alternation) (stem : Word) (exclusive : Bool) : Alternation :=
  { stem
    unaltered := if exclusive then a.unaltered.insert .consonantStart else a.unaltered
    altered := a.altered.insert .vowelStart }

/-- Voices the final stop; k after n becomes g. Optional voicing leaves the unaltered root open to
    vowels. -/
def voiceStop (l : Lexeme) (a : Alternation) : Except LexiconError Alternation :=
  if l.has .voicing || l.has .voicingOpt then
    let voiced := if ['n', 'k'].isSuffixOf l.lemmaRoot then some 'g'
      else a.stem.getLast?.bind Alphabet.voice?
    match voiced with
    | some c => .ok (a.change (Word.withLast a.stem c) (!l.has .voicingOpt))
    | none => .error (.inapplicableAttribute l.lemmaRoot .voicing)
  else .ok a

/-- Doubles the final letter. -/
def doubleLast (l : Lexeme) (a : Alternation) : Except LexiconError Alternation :=
  if l.has .doubling then
    match a.stem.getLast? with
    | some c => .ok (a.change (a.stem ++ [c]) true)
    | none => .error (.inapplicableAttribute l.lemmaRoot .doubling)
  else .ok a

/-- Drops the letter before the last one. The unaltered root of a verb stays open to vowels. -/
def dropLastVowel (l : Lexeme) (a : Alternation) : Except LexiconError Alternation :=
  if l.has .lastVowelDrop then
    if a.stem.length < 2 then .error (.inapplicableAttribute l.lemmaRoot .lastVowelDrop)
    else .ok (a.change (a.stem.eraseIdx (a.stem.length - 2)) (l.pos != .verb))
  else .ok a

/-- Drops the final letter, as before the progressive. -/
def dropFinal (l : Lexeme) (a : Alternation) : Except LexiconError Alternation :=
  if l.has .progressiveVowelDrop then
    if a.stem.isEmpty then .error (.inapplicableAttribute l.lemmaRoot .progressiveVowelDrop)
    else .ok (a.change a.stem.dropLast false)
  else .ok a

/-- All changes that the attributes of a lexeme ask for, in their order. -/
def ofLexeme (l : Lexeme) : Except LexiconError Alternation := do
  let a ← voiceStop l { stem := l.lemmaRoot }
  let a ← doubleLast l a
  let a ← dropLastVowel l a
  dropFinal l a

/-- The roots of a lexeme under an alternation. A stem that comes out unchanged yields no second
    root, and one that lost its vowels keeps the attributes of the lemma root. -/
def roots (l : Lexeme) (a : Alternation) : List Root :=
  let attributes := Phonetics.ofSurface l.lemmaRoot l.attributes
  let unaltered := Root.listed l.lemmaRoot l attributes a.unaltered
  if a.stem = l.lemmaRoot then [unaltered]
  else
    let own := if a.stem.hasVowel then Phonetics.ofSurface a.stem l.attributes else attributes
    [unaltered, Root.listed a.stem l own a.altered]

end Alternation

namespace Lexeme

/-- The root with the given spelling that expects nothing. -/
def plainRoot (l : Lexeme) (surface : Word) : Root :=
  Root.listed surface l (Phonetics.ofSurface surface l.attributes) ∅

/-- The roots of a lexeme with an irregular stem. -/
def irregularRoots (l : Lexeme) : Except LexiconError (List Root) :=
  match irregularStem? l.lemmaRoot l.pos with
  | none => .error (.irregularStemMissing l.lemmaRoot l.pos)
  | some stem => .ok <|
    if stem = l.lemmaRoot then [l.plainRoot l.lemmaRoot]
    else [l.plainRoot l.lemmaRoot, l.plainRoot stem]

/-- Whether some attribute asks for an altered root. -/
def isModified (l : Lexeme) : Bool := LexemeAttribute.modifiers.any l.has

/-- The roots of a lexeme, the unaltered one first. -/
def roots (l : Lexeme) : Except LexiconError (List Root) :=
  if l.isModified then
    if l.has .rootChange then l.irregularRoots
    else (Alternation.ofLexeme l).map (Alternation.roots l)
  else .ok [l.plainRoot l.lemmaRoot]

/-- A root and, where it has circumflexes, its copy without them. -/
def withPlainCopy (r : Root) : List Root :=
  if r.surface.any Alphabet.hasCircumflex then [r, r.withSurface r.surface.withoutCircumflex]
  else [r]

/-- The roots of a lexeme, each followed by its copy without circumflexes if it has any. -/
def rootsWithPlain (l : Lexeme) : Except LexiconError (List Root) :=
  l.roots.map fun rs => rs.flatMap withPlainCopy

end Lexeme

end TurkishMorphology
