import TurkishMorphology.Lexeme
/-!
# Errors of the lexicon

What can be wrong with a dictionary: a line that is not of the line format, a tag that names
nothing, or an attribute that asks for a change the root does not admit.

## Main definitions

- `LineFault` — how a line departs from the line format
- `LexiconError`, `LexiconError.message` — an error and its wording
-/

namespace TurkishMorphology

/-- How a line departs from the line format. -/
inductive LineFault where
  /-- The bracket that opens the metadata is not closed at the end of the line. -/
  | unclosedMetadata
  /-- The root is missing or has white space inside. -/
  | invalidRoot (root : Word)
  /-- An item of the metadata has no colon. -/
  | keyExpected (item : Word)
  /-- An item of the metadata has a key that means nothing. -/
  | unknownKey (key : Word)
deriving DecidableEq

def LineFault.message : LineFault → String
  | .unclosedMetadata => "metadata must end with `]`"
  | .invalidRoot root => "invalid root `" ++ root.text ++ "`"
  | .keyExpected item => "expected `KEY:value`, got `" ++ item.text ++ "`"
  | .unknownKey key => "unknown metadata key `" ++ key.text ++ "`"

/-- What can be wrong with a dictionary. -/
inductive LexiconError where
  | malformedLine (line : Nat) (fault : LineFault)
  | unknownPos (line : Nat) (tag : Word)
  | unknownAttribute (line : Nat) (tag : Word)
  /-- A lexeme with an irregular stem that the table of irregular stems does not list. -/
  | irregularStemMissing (lemmaRoot : Word) (pos : PrimaryPos)
  /-- A lexeme whose attribute asks for a change its root does not admit. -/
  | inapplicableAttribute (lemmaRoot : Word) (change : LexemeAttribute)
deriving DecidableEq

def LexiconError.message : LexiconError → String
  | .malformedLine line fault => "line " ++ toString line ++ ": " ++ fault.message
  | .unknownPos line tag =>
    "line " ++ toString line ++ ": unknown part of speech `" ++ tag.text ++ "`"
  | .unknownAttribute line tag =>
    "line " ++ toString line ++ ": unknown lexeme attribute `" ++ tag.text ++ "`"
  | .irregularStemMissing lemmaRoot pos =>
    "no root change entry for `" ++ lemmaRoot.text ++ "` (" ++ pos.tag ++ ")"
  | .inapplicableAttribute lemmaRoot change =>
    "cannot apply " ++ change.tag ++ " to root `" ++ lemmaRoot.text ++ "`"

end TurkishMorphology
