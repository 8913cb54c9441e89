import TurkishMorphology.FlagSet
/-!
# Phonetic attributes

What a suffix needs to know about the word before it: the last letter (vowel or consonant,
voiceless or not, a stop or not) and the last vowel (front or back, rounded or not). The two
attributes of a first letter describe suffixes rather than words.

An expectation is what a word asks of the next suffix that adds letters.

## Main definitions

- `PhoneticAttribute`, `PhoneticAttributes` — attributes and sets of them
- `PhoneticExpectation`, `PhoneticExpectations` — expectations and sets of them
- `PhoneticExpectation.isMetBy` — whether a first letter meets an expectation
-/

namespace TurkishMorphology

inductive PhoneticAttribute where
  | lastLetterVowel | lastLetterConsonant | lastVowelFrontal | lastVowelBack
  | lastVowelRounded | lastVowelUnrounded | lastLetterVoiceless | lastLetterNotVoiceless
  | lastLetterVoicelessStop | firstLetterVowel | firstLetterConsonant | hasNoVowel
deriving DecidableEq, Repr, Inhabited

namespace PhoneticAttribute

def all : List PhoneticAttribute :=
  [.lastLetterVowel, .lastLetterConsonant, .lastVowelFrontal, .lastVowelBack,
    .lastVowelRounded, .lastVowelUnrounded, .lastLetterVoiceless, .lastLetterNotVoiceless,
    .lastLetterVoicelessStop, .firstLetterVowel, .firstLetterConsonant, .hasNoVowel]

def tag : PhoneticAttribute → String
  | .lastLetterVowel => "LLV"
  | .lastLetterConsonant => "LLC"
  | .lastVowelFrontal => "LVF"
  | .lastVowelBack => "LVB"
  | .lastVowelRounded => "LVR"
  | .lastVowelUnrounded => "LVU"
  | .lastLetterVoiceless => "LLVless"
  | .lastLetterNotVoiceless => "LLNotVless"
  | .lastLetterVoicelessStop => "LLVlessStop"
  | .firstLetterVowel => "FLV"
  | .firstLetterConsonant => "FLC"
  | .hasNoVowel => "NoVow"

theorem ctorIdx_lt (a : PhoneticAttribute) : a.ctorIdx < 64 := by cases a <;> decide

instance : Flag PhoneticAttribute where
  all := all
  bit a := ⟨a.ctorIdx, a.ctorIdx_lt⟩
  mem_all a := by cases a <;> decide
  bit_injective a b h := by
    rw [← ofNat_ctorIdx a, ← ofNat_ctorIdx b, Fin.mk.inj h]

end PhoneticAttribute

abbrev PhoneticAttributes := FlagSet PhoneticAttribute

/-- What a word asks of the next suffix that adds letters. -/
inductive PhoneticExpectation where
  | vowelStart | consonantStart
deriving DecidableEq, Repr, Inhabited

namespace PhoneticExpectation

def all : List PhoneticExpectation := [.vowelStart, .consonantStart]

theorem ctorIdx_lt (e : PhoneticExpectation) : e.ctorIdx < 64 := by cases e <;> decide

instance : Flag PhoneticExpectation where
  all := all
  bit e := ⟨e.ctorIdx, e.ctorIdx_lt⟩
  mem_all e := by cases e <;> decide
  bit_injective a b h := by
    rw [← ofNat_ctorIdx a, ← ofNat_ctorIdx b, Fin.mk.inj h]

/-- Whether a first letter, given as vowel or not, meets the expectation. -/
def isMetBy (e : PhoneticExpectation) (firstIsVowel : Bool) : Bool :=
  match e with
  | .vowelStart => firstIsVowel
  | .consonantStart => !firstIsVowel

end PhoneticExpectation

abbrev PhoneticExpectations := FlagSet PhoneticExpectation

/-- Whether some way to start meets every expectation. No expectation is always met. -/
def PhoneticExpectations.areMetBy (s : PhoneticExpectations) (starts : List Bool) : Bool :=
  s.isEmpty || starts.any fun firstIsVowel => s.toList.all (·.isMetBy firstIsVowel)

end TurkishMorphology
