import TurkishMorphology.Phonetics.Context
/-!
# Roots

A root is a spelling under which a lexeme begins a word, with the phonetic attributes that the
first suffix sees and the expectations it has to meet. A lexeme has one or two roots in a
dictionary; proper nouns, punctuation and digits get roots from the input.

## Main definitions

- `Root` — a root
- `Root.listed`, `Root.coined`, `Root.numeral` — the three ways to make one
- `Root.withSurface` — the same root in another spelling
-/

namespace TurkishMorphology

/-- How a root came about. -/
inductive Root.Kind where
  /-- A lexeme of the dictionary gives rise to it. -/
  | listed
  /-- It is taken from the input as it stands. -/
  | coined
  /-- It is written in digits and read as the given words. -/
  | numeral (spelledOut : Word)
deriving DecidableEq, Inhabited

/-- A spelling under which a lexeme begins a word. -/
structure Root where
  surface : Word
  lexeme : Lexeme
  kind : Root.Kind
  attributes : PhoneticAttributes
  expectations : PhoneticExpectations := ∅
deriving DecidableEq, Inhabited

namespace Root

/-- A root of a dictionary lexeme. -/
def listed (surface : Word) (lexeme : Lexeme) (attributes : PhoneticAttributes)
    (expectations : PhoneticExpectations) : Root :=
  ⟨surface, lexeme, .listed, attributes, expectations⟩

/-- A root taken from the input, whose attributes are those of its spelling. -/
def coined (surface : Word) (lexeme : Lexeme) : Root :=
  ⟨surface, lexeme, .coined, Phonetics.ofSurface surface lexeme.attributes, ∅⟩

/-- A root written in digits, whose attributes are those of the number words. -/
def numeral (surface : Word) (lexeme : Lexeme) (spelledOut : Word) : Root :=
  ⟨surface, lexeme, .numeral spelledOut, Phonetics.ofSurface spelledOut lexeme.attributes, ∅⟩

/-- The same root in another spelling; attributes and expectations stay. -/
def withSurface (r : Root) (surface : Word) : Root := { r with surface }

/-- Whether the root is spelled as the lemma root of its lexeme. -/
def isUnaltered (r : Root) : Bool := r.surface == r.lexeme.lemmaRoot

end Root

end TurkishMorphology
