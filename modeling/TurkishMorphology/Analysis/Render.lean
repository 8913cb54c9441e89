import TurkishMorphology.Analysis.Basic
/-!
# Printed analyses

An analysis is printed as its root with the lemma root, its part of speech, and its suffixes:
`kapı(kapı)+Noun+A3sg+Pnon+Dat(+yA[ya])`. A step that begins a derivation first prints the part of
speech it leads to. Suffixes without a printed name are left out. A template and what it was
resolved to are printed only if letters or digits were added; the bare form leaves out surfaces
altogether.

## Main definitions

- `Analysis.render`, `Analysis.renderBare` — the full and the bare form
- `Summary`, `Analysis.summary` — an analysis as a record of texts
-/

namespace TurkishMorphology

namespace Analysis

def renderPos (l : Lexeme) : Word :=
  '+' :: l.pos.tag.toList ++
    match l.secondary with
    | some s => '+' :: s.tag.toList
    | none => []

/-- The part of speech that a derivation leads to. -/
def renderDerivation (g : Grammar) (s : Step) : Word :=
  if s.derives then '+' :: (g.state s.target).pos.tag.toList else []

/-- The template of a step and what it was resolved to, if that is audible. -/
def renderText (g : Grammar) (r : Realization) : Word :=
  if r.text.hasAlphanumeric then
    '(' :: (g.form r.form).template.text ++ '[' :: r.text ++ [']', ')']
  else []

/-- A suffix, with or without its text. -/
def renderStep (g : Grammar) (withText : Bool) (s : Step) : Word :=
  renderDerivation g s ++
    match (g.suffix s.realization.suffix).printed with
    | none => []
    | some name =>
      '+' :: name.toList ++ if withText then renderText g s.realization else []

def render (g : Grammar) (a : Analysis) : Word :=
  a.root.surface ++ '(' :: a.root.lexeme.lemmaRoot ++ ')' :: renderPos a.root.lexeme
    ++ a.steps.flatMap (renderStep g true)

def renderBare (g : Grammar) (a : Analysis) : Word :=
  a.root.lexeme.lemmaRoot ++ renderPos a.root.lexeme ++ a.steps.flatMap (renderStep g false)

/-- The printed names of the suffixes. -/
def printedSuffixes (g : Grammar) (a : Analysis) : List String :=
  a.steps.filterMap fun s => (g.suffix s.realization.suffix).printed

end Analysis

/-- An analysis as a record of texts. -/
structure Summary where
  surface : Word
  root : Word
  citation : Word
  lemmaRoot : Word
  pos : PrimaryPos
  formatted : Word
  suffixes : List String
deriving DecidableEq, Inhabited

def Analysis.summary (g : Grammar) (a : Analysis) : Summary where
  surface := a.surface
  root := a.root.surface
  citation := a.root.lexeme.citation
  lemmaRoot := a.root.lexeme.lemmaRoot
  pos := a.root.lexeme.pos
  formatted := a.render g
  suffixes := a.printedSuffixes g

end TurkishMorphology
