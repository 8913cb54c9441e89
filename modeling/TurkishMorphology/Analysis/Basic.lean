import TurkishMorphology.Grammar.Paradigm
/-!
# Analyses

An analysis is one way to read a beginning of a word: a root and the steps taken after it, each of
which realizes a form and leads to a state. It also keeps the rest of the input and what the next
step is judged against: the phonetic attributes and expectations, the attributes of the lexeme that
still apply, and the steps since the last derivation.

## Main definitions

- `Step` — a form taken on the way from one state to another
- `Analysis` — a root, the steps after it, and what follows from them
- `Analysis.begin`, `Analysis.extend` — an analysis without steps, and one step more
- `Analysis.rebase` — the same analysis at the start of another input
- `Condition.holds` — whether an analysis satisfies a condition

## Design notes

A derivation begins with a step that leaves a derivational state. The steps since the last
derivation do not include that step, the steps from it on do. An analysis keeps both by their
positions among its steps, counted from zero; a position without a step stands for nothing.
-/

namespace TurkishMorphology

/-- A form taken on the way from one state to another. -/
structure Step where
  source : StateId
  realization : Realization
  target : StateId
  /-- Whether the step left a derivational state, and so began a derivation. -/
  derives : Bool
deriving DecidableEq, Inhabited

/-- Whether the step adds nothing visible. -/
def Step.isBlank (s : Step) : Bool := s.realization.isBlank

/-- A root and the steps taken after it. -/
structure Analysis where
  root : Root
  /-- The state in which the root begins. -/
  rootState : StateId
  /-- The root and everything added to it. -/
  surface : Word
  /-- The input that is still to be read. -/
  remaining : Word
  steps : List Step := []
  /-- The state that the last step leads to. -/
  state : StateId
  attributes : PhoneticAttributes
  expectations : PhoneticExpectations
  /-- The lexeme attributes that apply to the surface. -/
  lexemeAttributes : LexemeAttributes
  /-- The positions of the steps after the last one that began a derivation. -/
  sincePositions : List Nat := []
  /-- The positions of the last step that began a derivation, and of those after it. -/
  fromPositions : List Nat := []
  /-- The position of the last step that began a derivation. -/
  lastPosition : Option Nat := none
  /-- The groups of the suffixes taken since the last derivation. -/
  groups : List GroupId := []
deriving DecidableEq, Inhabited

namespace Analysis

def begin (root : Root) (state : StateId) (remaining : Word) : Analysis where
  root
  rootState := state
  surface := root.surface
  remaining
  state
  attributes := root.attributes
  expectations := root.expectations
  lexemeAttributes := root.lexeme.attributes

/-- What was added after the root. -/
def added (a : Analysis) : Word := a.surface.drop a.root.surface.length

def lastStep? (a : Analysis) : Option Step := a.steps.getLast?

/-- The last step that added something visible. -/
def lastSpoken? (a : Analysis) : Option Step := a.steps.reverse.find? fun s => !s.isBlank

/-- The steps at the given positions. -/
def stepsAt (a : Analysis) (positions : List Nat) : List Step :=
  positions.filterMap fun i => a.steps[i]?

/-- The steps after the last one that began a derivation. -/
def sinceDerivation (a : Analysis) : List Step := a.stepsAt a.sincePositions

/-- The last step that began a derivation, and those after it. -/
def fromDerivation (a : Analysis) : List Step := a.stepsAt a.fromPositions

/-- The last step that began a derivation. -/
def lastDerivation (a : Analysis) : Option Step := a.lastPosition.bind fun i => a.steps[i]?

/-- The suffixes taken since the last derivation. -/
def recentSuffixes (a : Analysis) : List SuffixId :=
  a.sinceDerivation.map fun s => s.realization.suffix

/-- The lexeme attributes that apply after the given steps have led to `state`. Before anything is
    spoken they are those of the lexeme. Afterwards only verbs have one: a verb that is left
    through a derivation or without a sound does not voice its last consonant. -/
def lexemeView (lexeme : LexemeAttributes) (steps : List Step) (state : State) :
    LexemeAttributes :=
  if steps.all Step.isBlank then lexeme
  else if state.pos = .verb ∧ (state.isDerivational ∨ steps.getLast?.any Step.isBlank) then
    .ofList [.noVoicing]
  else ∅

/-- The phonetic attributes of a surface. Until a letter or digit is added they are those of the
    root. -/
def phoneticView (root : Root) (surface : Word) (lexeme : LexemeAttributes) :
    PhoneticAttributes :=
  let added : Word := surface.drop root.surface.length
  if added.isBlank || !added.hasAlphanumeric then root.attributes
  else Phonetics.ofSurface surface lexeme

/-- The expectations after a realization: something visible settles those before it. -/
def expectationsAfter (previous : PhoneticExpectations) (r : Realization) :
    PhoneticExpectations :=
  let kept := if r.isBlank then previous else ∅
  match r.awaits with
  | some e => kept.insert e
  | none => kept

/-- The analysis with one step more, whatever the conditions on it. -/
def extend (g : Grammar) (a : Analysis) (r : Realization) (target : StateId) : Analysis :=
  let derives := (g.state a.state).isDerivational
  let step : Step := ⟨a.state, r, target, derives⟩
  let position := a.steps.length
  let surface := a.surface ++ r.text
  let steps := a.steps ++ [step]
  let lexeme := lexemeView a.root.lexeme.attributes steps (g.state target)
  { a with
    surface
    remaining := a.remaining.drop r.text.length
    steps
    state := target
    expectations := expectationsAfter a.expectations r
    lexemeAttributes := lexeme
    attributes := phoneticView a.root surface lexeme
    sincePositions := if derives then [] else a.sincePositions ++ [position]
    fromPositions := if derives then [position] else a.fromPositions ++ [position]
    lastPosition := if derives then some position else a.lastPosition
    groups := if derives then [] else a.groups ++ (g.suffix r.suffix).group.toList }

/-- The same analysis at the start of `input`, if the input starts with its surface. -/
def rebase (a : Analysis) (input : Word) : Option Analysis :=
  if a.surface.isPrefixOf input then
    some { a with remaining := input.drop a.surface.length }
  else none

end Analysis

/-- Whether an analysis satisfies a condition. -/
def Condition.holds (a : Analysis) : Condition → Bool
  | .always => true
  | .never => false
  | .after s => a.recentSuffixes.contains s
  | .afterAny ss => a.recentSuffixes.any ss.contains
  | .afterDerivation s => a.lastDerivation.any fun t => t.realization.suffix = s
  | .followedBy s => a.lastStep?.any fun t => t.realization.suffix = s
  | .lexemeHas x => a.lexemeAttributes.contains x
  | .rootHas x => a.root.lexeme.has x
  | .rootAmong ws => ws.contains a.root.lexeme.lemmaRoot
  | .rootUnaltered => a.root.isUnaltered
  | .derived => a.lastDerivation.isSome
  | .fresh => a.steps.isEmpty
  | .unspoken => a.lastSpoken?.isNone
  | .both p q => p.holds a && q.holds a
  | .either p q => p.holds a || q.holds a
  | .negation p => !p.holds a

end TurkishMorphology
