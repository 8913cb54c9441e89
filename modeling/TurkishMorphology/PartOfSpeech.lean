/-!
# Parts of speech

The primary part of speech says which inflection a word takes; the secondary one refines it. Each
has a short tag, used in dictionaries and in printed analyses.

## Main definitions

- `PrimaryPos`, `PrimaryPos.tag`, `PrimaryPos.ofTag?`
- `SecondaryPos`, `SecondaryPos.tag`, `SecondaryPos.ofTag?`
-/

namespace TurkishMorphology

inductive PrimaryPos where
  | noun | adjective | adverb | conjunction | interjection | verb | pronoun | numeral
  | determiner | postposition | question | punctuation | part
deriving DecidableEq, Repr, Inhabited

namespace PrimaryPos

def all : List PrimaryPos :=
  [.noun, .adjective, .adverb, .conjunction, .interjection, .verb, .pronoun, .numeral,
    .determiner, .postposition, .question, .punctuation, .part]

/-- The short form used in dictionaries and printed analyses. -/
def tag : PrimaryPos → String
  | .noun => "Noun"
  | .adjective => "Adj"
  | .adverb => "Adv"
  | .conjunction => "Conj"
  | .interjection => "Interj"
  | .verb => "Verb"
  | .pronoun => "Pron"
  | .numeral => "Num"
  | .determiner => "Det"
  | .postposition => "Postp"
  | .question => "Ques"
  | .punctuation => "Punc"
  | .part => "Part"

def ofTag? (t : String) : Option PrimaryPos := all.find? fun p => p.tag == t

theorem mem_all (p : PrimaryPos) : p ∈ all := by cases p <;> decide

theorem tag_of_ofTag? {t : String} {p : PrimaryPos} (h : ofTag? t = some p) : p.tag = t := by
  simpa using List.find?_some h

end PrimaryPos

inductive SecondaryPos where
  | duplicator | postPositive | question | demonstrative | reflexive | personal | time
  | properNoun | abbreviation | cardinal | ordinal | digits | range | distribution | fraction
deriving DecidableEq, Repr, Inhabited

namespace SecondaryPos

def all : List SecondaryPos :=
  [.duplicator, .postPositive, .question, .demonstrative, .reflexive, .personal, .time,
    .properNoun, .abbreviation, .cardinal, .ordinal, .digits, .range, .distribution, .fraction]

/-- The short form used in dictionaries and printed analyses. -/
def tag : SecondaryPos → String
  | .duplicator => "Dup"
  | .postPositive => "PostPos"
  | .question => "Ques"
  | .demonstrative => "Demons"
  | .reflexive => "Reflex"
  | .personal => "Pers"
  | .time => "Time"
  | .properNoun => "Prop"
  | .abbreviation => "Abbr"
  | .cardinal => "Card"
  | .ordinal => "Ord"
  | .digits => "Digits"
  | .range => "Range"
  | .distribution => "Dist"
  | .fraction => "Frac"

def ofTag? (t : String) : Option SecondaryPos := all.find? fun p => p.tag == t

theorem mem_all (p : SecondaryPos) : p ∈ all := by cases p <;> decide

theorem tag_of_ofTag? {t : String} {p : SecondaryPos} (h : ofTag? t = some p) : p.tag = t := by
  simpa using List.find?_some h

end SecondaryPos

end TurkishMorphology
