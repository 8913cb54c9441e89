import TurkishMorphology.Analysis.Basic
import TurkishMorphology.Lexicon.RootIndex
/-!
# Fixed paths of irregular roots

Irregular roots are not analysed step by step. Each has a list of paths, analyses made beforehand
that no gate judges; those whose surface begins the input go on from there. So the pronouns get
forms such as `bana` and `onu`, and `di` and `yi` the suffixes that the stems of `demek` and
`yemek` take in that shape.

## Main definitions

- `PathStep`, `PathDraft` — a step of a path, and the paths of a root, by names
- `FixedPaths` — the paths of each root
- `FixedPaths.build` — the paths of the roots that an index has
- `FixedPaths.turkish` — the paths of Turkish
-/

namespace TurkishMorphology

/-- A step of a path, by names. -/
structure PathStep where
  suffix : String
  template : Word
  /-- What the step adds. -/
  text : Word
  target : String
  /-- Whether the text ends in a voiced stop that the template spells voiceless, and so expects a
      vowel after it. -/
  voiced : Bool := false

/-- The paths of the roots with the given spelling, lemma root and part of speech. -/
structure PathDraft where
  lemmaRoot : Word
  pos : PrimaryPos
  surface : Word
  paths : List (List PathStep)

/-- The paths of each root that has any, in the order in which they were made. -/
structure FixedPaths where
  entries : List (Root × List Analysis) := []
deriving DecidableEq, Inhabited

namespace PathStep

/-- A text with its final stop devoiced. -/
def devoiced (text : Word) : Word :=
  ((text.getLast?.bind Alphabet.devoice?).map text.withLast).getD text

/-- The realization that a step stands for, and where it leads. -/
def resolve (g : Grammar) (s : PathStep) : Except GrammarError (Realization × StateId) := do
  let suffix ← g.suffixId s.suffix
  let form ← g.findForm suffix s.template
  let target ← g.stateId s.target
  let r : Realization :=
    if s.voiced then
      { form, suffix, text := s.text, plain := devoiced s.text, awaits := some .vowelStart }
    else { form, suffix, text := s.text, plain := s.text }
  return (r, target)

end PathStep

namespace FixedPaths

/-- Takes the steps of a path without judging them. -/
def follow (g : Grammar) (a : Analysis) : List PathStep → Except GrammarError Analysis
  | [] => .ok a
  | s :: rest => do
    let (r, target) ← s.resolve g
    follow g (a.extend g r target) rest

/-- A path of a root, on empty input. -/
def path (g : Grammar) (root : Root) (state : StateId) (steps : List PathStep) :
    Except GrammarError Analysis :=
  follow g (Analysis.begin root state []) steps

def get (p : FixedPaths) (r : Root) : List Analysis := (p.entries.lookup r).getD []

def has (p : FixedPaths) (r : Root) : Bool := (p.entries.lookup r).isSome

def size (p : FixedPaths) : Nat := p.entries.length

def isEmpty (p : FixedPaths) : Bool := p.entries.isEmpty

def add (p : FixedPaths) (r : Root) (paths : List Analysis) : FixedPaths :=
  if paths.isEmpty then p
  else if p.has r then
    ⟨p.entries.map fun (s, old) => if s = r then (s, old ++ paths) else (s, old)⟩
  else ⟨p.entries ++ [(r, paths)]⟩

def addRoot (g : Grammar) (d : PathDraft) (p : FixedPaths) (r : Root) :
    Except GrammarError FixedPaths := do
  let state ← g.rootState r
  let paths ← d.paths.mapM (path g r state)
  return p.add r paths

def concerns (d : PathDraft) (r : Root) : Bool :=
  r.lexeme.lemmaRoot = d.lemmaRoot ∧ r.lexeme.pos = d.pos

def addDraft (g : Grammar) (index : RootIndex) (p : FixedPaths) (d : PathDraft) :
    Except GrammarError FixedPaths :=
  ((index.get d.surface).filter (concerns d)).foldlM (addRoot g d) p

/-- The paths of the roots that the index has; drafts about other roots are left out. -/
def build (g : Grammar) (index : RootIndex) (drafts : List PathDraft) :
    Except GrammarError FixedPaths :=
  drafts.foldlM (addDraft g index) {}

end FixedPaths

end TurkishMorphology
