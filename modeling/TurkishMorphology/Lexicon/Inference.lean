import TurkishMorphology.Lexeme
/-!
# Implicit attributes

A dictionary states an attribute only where it departs from what the shape of the root suggests.
The rest is inferred here: for verbs the vowel dropped before the progressive and the choice of
aorist, causative and passive suffix, for all words whether a final stop is voiced. What the
dictionary states always wins.

## Main definitions

- `RootShape`, `RootShape.of?` — what inference looks at in a root
- `inferAttributes` — the attributes stated together with those inferred
-/

namespace TurkishMorphology

/-- What inference looks at in a root. -/
structure RootShape where
  root : Word
  last : Char
  syllables : Nat

namespace RootShape

/-- The shape of a root that is not empty. -/
def of? (root : Word) : Option RootShape :=
  root.getLast?.map fun last => ⟨root, last, root.vowelCount⟩

def endsInVowel (s : RootShape) : Bool := Alphabet.isVowel s.last

def endsInStop (s : RootShape) : Bool := (Alphabet.letter s.last).isVoicelessStop

def isPolysyllabic (s : RootShape) : Bool := s.syllables > 1

end RootShape

namespace LexemeAttributes

/-- Whether some attribute of a class is in the set. -/
def hasSome (s : LexemeAttributes) (attributes : List LexemeAttribute) : Bool :=
  attributes.any s.contains

/-- The set with `a` added, unless some attribute of the class is there already. -/
def addUnlessGiven (s : LexemeAttributes) (given : List LexemeAttribute) (a : LexemeAttribute) :
    LexemeAttributes :=
  if hasSome s given then s else s.insert a

end LexemeAttributes

open LexemeAttributes

/-- The verbs of one syllable that take the aorist in a close vowel. -/
def closeAoristRoots : List Word := [
  ['a', 'l'], ['b', 'i', 'l'], ['b', 'u', 'l'], ['d', 'u', 'r'], ['g', 'e', 'l'],
  ['g', 'ö', 'r'], ['k', 'a', 'l'], ['o', 'l'], ['ö', 'l'], ['s', 'a', 'n'], ['v', 'a', 'r'],
  ['v', 'e', 'r'], ['v', 'u', 'r']]

namespace RootShape

def aorist (s : RootShape) : LexemeAttribute :=
  if s.isPolysyllabic || closeAoristRoots.contains s.root then .aoristI else .aoristA

def causative (s : RootShape) : LexemeAttribute :=
  if s.endsInVowel || s.isPolysyllabic && (s.last == 'l' || s.last == 'r') then .causativeT
  else .causativeDir

def passive (s : RootShape) : LexemeAttribute :=
  if s.endsInVowel || s.last == 'l' then .passiveIn else .passiveIl

/-- Whether a verb drops its final vowel before the progressive. -/
def dropsVowel (s : RootShape) (stated : LexemeAttributes) : Bool :=
  s.endsInVowel && s.isPolysyllabic && !stated.contains .rootChange

/-- The attributes of a verb. The stem that a dropped vowel leaves keeps its stop unvoiced, as
    does a verb that ends in a stop. -/
def verbAttributes (s : RootShape) (stated : LexemeAttributes) : LexemeAttributes :=
  let attributes := if s.dropsVowel stated then stated.insert .progressiveVowelDrop else stated
  let attributes := addUnlessGiven attributes LexemeAttribute.aorists s.aorist
  let attributes := addUnlessGiven attributes LexemeAttribute.causatives s.causative
  let attributes := addUnlessGiven attributes LexemeAttribute.passives s.passive
  if s.endsInStop || attributes.contains .progressiveVowelDrop then
    addUnlessGiven attributes LexemeAttribute.voicings .noVoicing
  else attributes

/-- The attributes of other words. Nouns and adjectives of several syllables voice their final
    stop; proper nouns never do. -/
def nominalAttributes (s : RootShape) (pos : PrimaryPos) (secondary : Option SecondaryPos)
    (stated : LexemeAttributes) : LexemeAttributes :=
  if secondary = some .properNoun then addUnlessGiven stated LexemeAttribute.voicings .noVoicing
  else if s.endsInStop then
    addUnlessGiven stated LexemeAttribute.voicings <|
      if (pos = .noun ∨ pos = .adjective) ∧ s.isPolysyllabic then .voicing else .noVoicing
  else stated

end RootShape

/-- The attributes that a dictionary states for a root, together with those it leaves implicit. -/
def inferAttributes (lemmaRoot : Word) (pos : PrimaryPos) (secondary : Option SecondaryPos)
    (stated : LexemeAttributes) : LexemeAttributes :=
  match RootShape.of? lemmaRoot with
  | none => stated
  | some shape =>
    if pos = .verb then shape.verbAttributes stated
    else shape.nominalAttributes pos secondary stated

end TurkishMorphology
