import TurkishMorphology.Phonetics.Context
import TurkishMorphology.Text.Case
/-!
# Suffix templates

A template spells a suffix up to harmony. In `+yAcAk`

- a capital `A` is e after a front vowel and a otherwise;
- a capital `I` is ı, i, u or ü, after `!` only ı or i;
- a letter after a leading `+` is optional: a vowel appears after a consonant and a consonant
  after a vowel;
- b, c, d and ğ become p, ç, t and k after a voiceless letter if no letter comes surely before
  them, unless `!` stands before them;
- other letters, and characters that are no letters, stand for themselves.

Each letter is resolved against the letters before it, so that `lArI` is `ları` or `leri`. A
vowel that is missing counts as back and unrounded.

## Main definitions

- `Slot` — one position of a template
- `Template.compile` — reading a template
- `Template.resolve` — the letters that a template stands for in a phonetic context
- `Template.starts` — how a template can begin
-/

namespace TurkishMorphology

/-- What stands at a position of a template. -/
inductive Slot.Content where
  | consonant (c : Char)
  | vowel (c : Char)
  /-- A character that is no letter, such as an apostrophe. -/
  | literal (c : Char)
  /-- a or e. -/
  | openVowel
  /-- ı or i, and u or ü where rounding spreads. -/
  | closeVowel (rounding : Bool)
  /-- A consonant that loses its voice after a voiceless letter. -/
  | devoicable (c : Char)
deriving DecidableEq, Inhabited

/-- One position of a template. -/
structure Slot where
  content : Slot.Content
  isOptional : Bool := false
deriving DecidableEq, Inhabited

namespace Slot

/-- Whether the position is filled by a vowel. -/
def isVowel (s : Slot) : Bool :=
  match s.content with
  | .vowel _ | .openVowel | .closeVowel _ => true
  | .consonant _ | .literal _ | .devoicable _ => false

/-- Whether a context says enough to fill the position. -/
def isApplicable (s : Slot) (a : PhoneticAttributes) : Bool :=
  if s.isOptional then a.contains .lastLetterVowel || a.contains .lastLetterConsonant
  else
    match s.content with
    | .devoicable _ => a.contains .lastLetterVoiceless || a.contains .lastLetterNotVoiceless
    | _ => true

/-- The letter that fills a position with the given content. -/
def Content.letter (content : Content) (a : PhoneticAttributes) : Char :=
  match content with
  | .consonant c | .vowel c | .literal c => c
  | .openVowel => if a.contains .lastVowelFrontal then 'e' else 'a'
  | .closeVowel rounding =>
    match a.contains .lastVowelFrontal, rounding && a.contains .lastVowelRounded with
    | false, false => 'ı'
    | true, false => 'i'
    | false, true => 'u'
    | true, true => 'ü'
  | .devoicable c =>
    if a.contains .lastLetterVoiceless then (Alphabet.devoice? c).getD c else c

/-- Whether an optional position is filled: a vowel after a consonant, a consonant after a
    vowel. -/
def isFilled (s : Slot) (a : PhoneticAttributes) : Bool :=
  !s.isOptional || a.contains (if s.isVowel then .lastLetterConsonant else .lastLetterVowel)

/-- The letter at a position, unless the position is left out. -/
def letter? (s : Slot) (a : PhoneticAttributes) : Option Char :=
  if s.isFilled a then some (s.content.letter a) else none

end Slot

/-- How a template departs from the notation. -/
inductive TemplateFault where
  | misplacedPlus
  | unknownHarmonicLetter
  | trailingModifier
deriving DecidableEq

def TemplateFault.message : TemplateFault → String
  | .misplacedPlus => "`+` is only allowed as the first character"
  | .unknownHarmonicLetter => "unknown harmonized letter"
  | .trailingModifier => "template ends with a modifier"

/-- A suffix up to harmony: how it is written, and its positions. -/
structure Template where
  text : Word
  slots : List Slot
deriving DecidableEq, Inhabited

namespace Template

/-- What a character stands for. `plain` says that a `!` stands before it, `mayBegin` that no
    letter comes surely before it. -/
def content (plain mayBegin : Bool) (c : Char) : Except TemplateFault Slot.Content :=
  if c = 'A' then .ok .openVowel
  else if c = 'I' then .ok (.closeVowel !plain)
  else if Text.isUppercase c then .error .unknownHarmonicLetter
  else
    match Alphabet.letter? c with
    | none => .ok (.literal c)
    | some l =>
      if l.isVowel then .ok (.vowel c)
      else if !plain && mayBegin && (Alphabet.devoice? c).isSome then .ok (.devoicable c)
      else .ok (.consonant c)

/-- Reads the positions. `isOptional` says that a `+` is pending, `plain` that a `!` is. -/
def readSlots (isOptional plain mayBegin : Bool) : Word → Except TemplateFault (List Slot)
  | [] => if isOptional || plain then .error .trailingModifier else .ok []
  | c :: cs =>
    if c = '+' then .error .misplacedPlus
    else if c = '!' then readSlots isOptional true mayBegin cs
    else do
      let content ← content plain mayBegin c
      let rest ← readSlots false false (mayBegin && isOptional) cs
      return ⟨content, isOptional⟩ :: rest

def compile (text : Word) : Except TemplateFault Template :=
  (match text with
    | '+' :: cs => readSlots true false true cs
    | cs => readSlots false false true cs).map fun slots => ⟨text, slots⟩

/-- A template known to be well written. -/
def of (text : Word) (h : (compile text).isOk = true := by decide) : Template :=
  match compile text, h with
  | .ok t, _ => t

def isBlank (t : Template) : Bool := t.slots.isEmpty

/-- Whether a context says enough to resolve the template. -/
def isApplicable (t : Template) (a : PhoneticAttributes) : Bool :=
  t.slots.all fun s => s.isApplicable a

/-- The letters at the given positions, each resolved after those before it. -/
def resolveSlots (a : PhoneticAttributes) : List Slot → Word
  | [] => []
  | s :: rest =>
    match s.letter? a with
    | some c => c :: resolveSlots (Phonetics.after a [c]) rest
    | none => resolveSlots a rest

/-- The letters that the template stands for after a word with the given attributes. -/
def resolve (t : Template) (a : PhoneticAttributes) : Word := resolveSlots a t.slots

/-- Whether the template starts with a vowel, for each way in which it can start. A leading
    optional letter makes two ways. -/
def starts (t : Template) : List Bool :=
  match t.slots with
  | [] => []
  | [s] => [s.isVowel]
  | s :: next :: _ => if s.isOptional then [s.isVowel, next.isVowel] else [s.isVowel]

end Template

end TurkishMorphology
