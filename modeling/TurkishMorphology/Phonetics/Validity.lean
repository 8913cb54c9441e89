import TurkishMorphology.Phonetics.Attribute
/-!
# Which attributes go together

Each attribute makes demands on the set it belongs to; a set is valid when it is not empty and
every member's demands are met. The contexts are the valid sets of attributes of the end of a word.
There are finitely many, and every word has one of them.

## Main definitions

- `PhoneticAttribute.admits` — the demands of an attribute on its set
- `Phonetics.isValid` — whether a set meets the demands of its members
- `Phonetics.trailing` — the attributes of the end of a word
- `Phonetics.contexts` — the valid sets of trailing attributes
-/

namespace TurkishMorphology

namespace PhoneticAttributes

/-- Whether exactly one of two attributes is in the set. -/
def hasOneOf (s : PhoneticAttributes) (a b : PhoneticAttribute) : Bool :=
  s.contains a != s.contains b

/-- Whether the set says of the last vowel both where it is made and whether it is rounded. -/
def describesVowel (s : PhoneticAttributes) : Bool :=
  hasOneOf s .lastVowelFrontal .lastVowelBack && hasOneOf s .lastVowelRounded .lastVowelUnrounded

end PhoneticAttributes

open PhoneticAttributes in
/-- The demands of an attribute on the set it belongs to. -/
def PhoneticAttribute.admits (a : PhoneticAttribute) (s : PhoneticAttributes) : Bool :=
  match a with
  | .lastLetterVowel =>
    !s.contains .lastLetterConsonant && !s.contains .hasNoVowel
      && !s.contains .lastLetterVoiceless && !s.contains .lastLetterVoicelessStop
      && s.contains .lastLetterNotVoiceless && describesVowel s
  | .lastLetterConsonant =>
    !s.contains .lastLetterVowel && hasOneOf s .lastLetterVoiceless .lastLetterNotVoiceless
      && (s.contains .hasNoVowel || describesVowel s)
  | .lastVowelFrontal =>
    !s.contains .lastVowelBack && !s.contains .hasNoVowel
      && hasOneOf s .lastVowelRounded .lastVowelUnrounded
      && hasOneOf s .lastLetterVowel .lastLetterConsonant
  | .lastVowelBack =>
    !s.contains .lastVowelFrontal && !s.contains .hasNoVowel
      && hasOneOf s .lastVowelRounded .lastVowelUnrounded
      && hasOneOf s .lastLetterVowel .lastLetterConsonant
  | .lastVowelRounded =>
    !s.contains .lastVowelUnrounded && !s.contains .hasNoVowel
      && hasOneOf s .lastVowelFrontal .lastVowelBack
      && hasOneOf s .lastLetterVowel .lastLetterConsonant
  | .lastVowelUnrounded =>
    !s.contains .lastVowelRounded && !s.contains .hasNoVowel
      && hasOneOf s .lastVowelFrontal .lastVowelBack
      && hasOneOf s .lastLetterVowel .lastLetterConsonant
  | .lastLetterVoiceless =>
    s.contains .lastLetterConsonant && !s.contains .lastLetterNotVoiceless
  | .lastLetterNotVoiceless =>
    !s.contains .lastLetterVoiceless && !s.contains .lastLetterVoicelessStop
      && hasOneOf s .lastLetterVowel .lastLetterConsonant
  | .lastLetterVoicelessStop => s.contains .lastLetterVoiceless
  | .firstLetterVowel => !s.contains .firstLetterConsonant
  | .firstLetterConsonant => !s.contains .firstLetterVowel
  | .hasNoVowel =>
    !s.contains .lastVowelFrontal && !s.contains .lastVowelBack && !s.contains .lastVowelRounded
      && !s.contains .lastVowelUnrounded && s.contains .lastLetterConsonant

namespace Phonetics

/-- A set is valid when it is not empty and meets the demands of its members. -/
def isValid (s : PhoneticAttributes) : Bool :=
  !s.isEmpty && PhoneticAttribute.all.all fun a => !s.contains a || a.admits s

/-- The attributes that describe the end of a word. -/
def trailing : List PhoneticAttribute :=
  [.lastLetterVowel, .lastLetterConsonant, .lastVowelFrontal, .lastVowelBack,
    .lastVowelRounded, .lastVowelUnrounded, .lastLetterVoiceless, .lastLetterNotVoiceless,
    .lastLetterVoicelessStop, .hasNoVowel]

/-- The trailing attributes whose positions are set in a binary number. -/
def trailingSet (selection : Nat) : PhoneticAttributes :=
  .ofList <| (trailing.zipIdx.filter fun (_, i) => selection.testBit i).map (·.1)

/-- The valid sets of trailing attributes, in the order of their binary numbers. -/
def contexts : List PhoneticAttributes :=
  ((List.range (Nat.pow 2 trailing.length)).map trailingSet).filter isValid

end Phonetics

end TurkishMorphology
