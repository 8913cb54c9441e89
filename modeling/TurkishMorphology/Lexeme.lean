import TurkishMorphology.FlagSet
import TurkishMorphology.PartOfSpeech
import TurkishMorphology.Word
/-!
# Lexemes

A lexeme is a dictionary entry: the lemma, the root that inflection starts from, the part of
speech, and the attributes that say how its root changes and which suffixes it takes.

## Main definitions

- `LexemeAttribute` — an attribute of a lexeme
- `LexemeAttributes` — a set of attributes
- `Lexeme` — a dictionary entry
-/

namespace TurkishMorphology

/-- An attribute that a dictionary gives to a lexeme. -/
inductive LexemeAttribute where
  | voicing | noVoicing | voicingOpt | doubling | lastVowelDrop | progressiveVowelDrop
  | inverseHarmony | rootChange | compoundP3sg | plural | special | noSuffix | endsWithAyn
  | reflexive | reciprocal | nonTransitive | causativeT | causativeIr | causativeIt
  | causativeAr | causativeDir | passiveIn | passiveInIl | passiveIl | aoristI | aoristA
deriving DecidableEq, Repr, Inhabited

namespace LexemeAttribute

def all : List LexemeAttribute :=
  [.voicing, .noVoicing, .voicingOpt, .doubling, .lastVowelDrop, .progressiveVowelDrop,
    .inverseHarmony, .rootChange, .compoundP3sg, .plural, .special, .noSuffix, .endsWithAyn,
    .reflexive, .reciprocal, .nonTransitive, .causativeT, .causativeIr, .causativeIt,
    .causativeAr, .causativeDir, .passiveIn, .passiveInIl, .passiveIl, .aoristI, .aoristA]

/-- The spelling used in dictionaries. -/
def tag : LexemeAttribute → String
  | .voicing => "Voicing"
  | .noVoicing => "NoVoicing"
  | .voicingOpt => "VoicingOpt"
  | .doubling => "Doubling"
  | .lastVowelDrop => "LastVowelDrop"
  | .progressiveVowelDrop => "ProgressiveVowelDrop"
  | .inverseHarmony => "InverseHarmony"
  | .rootChange => "RootChange"
  | .compoundP3sg => "CompoundP3sg"
  | .plural => "Plural"
  | .special => "Special"
  | .noSuffix => "NoSuffix"
  | .endsWithAyn => "EndsWithAyn"
  | .reflexive => "Reflexive"
  | .reciprocal => "Reciprocal"
  | .nonTransitive => "NonTransitive"
  | .causativeT => "Causative_t"
  | .causativeIr => "Causative_Ir"
  | .causativeIt => "Causative_It"
  | .causativeAr => "Causative_Ar"
  | .causativeDir => "Causative_dIr"
  | .passiveIn => "Passive_In"
  | .passiveInIl => "Passive_InIl"
  | .passiveIl => "Passive_Il"
  | .aoristI => "Aorist_I"
  | .aoristA => "Aorist_A"

def ofTag? (t : String) : Option LexemeAttribute := all.find? fun a => a.tag == t

theorem tag_of_ofTag? {t : String} {a : LexemeAttribute} (h : ofTag? t = some a) : a.tag = t := by
  simpa using List.find?_some h

theorem ctorIdx_lt (a : LexemeAttribute) : a.ctorIdx < 64 := by cases a <;> decide

instance : Flag LexemeAttribute where
  all := all
  bit a := ⟨a.ctorIdx, a.ctorIdx_lt⟩
  mem_all a := by cases a <;> decide
  bit_injective a b h := by
    rw [← ofNat_ctorIdx a, ← ofNat_ctorIdx b, Fin.mk.inj h]

/-- The attributes that give a lexeme a second, altered root. -/
def modifiers : List LexemeAttribute :=
  [.voicing, .voicingOpt, .doubling, .lastVowelDrop, .inverseHarmony, .progressiveVowelDrop,
    .rootChange]

/-- The attributes that settle whether a final stop is voiced. -/
def voicings : List LexemeAttribute := [.voicing, .noVoicing, .voicingOpt]

def causatives : List LexemeAttribute :=
  [.causativeT, .causativeIr, .causativeIt, .causativeAr, .causativeDir]

def passives : List LexemeAttribute := [.passiveIn, .passiveInIl, .passiveIl]

def aorists : List LexemeAttribute := [.aoristI, .aoristA]

end LexemeAttribute

abbrev LexemeAttributes := FlagSet LexemeAttribute

/-- Where a lexeme comes from. -/
inductive Lexeme.Origin where
  /-- A dictionary lists it. -/
  | dictionary
  /-- The input word itself gave rise to it. -/
  | dynamic
deriving DecidableEq, Repr, Inhabited

/-- A dictionary entry. -/
structure Lexeme where
  /-- The form under which the word is listed. -/
  citation : Word
  /-- The form that inflection starts from. -/
  lemmaRoot : Word
  pos : PrimaryPos
  secondary : Option SecondaryPos := none
  attributes : LexemeAttributes := ∅
  origin : Lexeme.Origin := .dictionary
deriving DecidableEq, Inhabited

def Lexeme.has (l : Lexeme) (a : LexemeAttribute) : Bool := l.attributes.contains a

end TurkishMorphology
