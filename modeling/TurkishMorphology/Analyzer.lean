import TurkishMorphology.Analysis.Forcing
import TurkishMorphology.Analysis.Irregular
import TurkishMorphology.Grammar.Turkish
import TurkishMorphology.Lexicon.RootSource
import TurkishMorphology.Lexicon.Sample
/-!
# The analyser

All analyses of a word, found generation by generation. The first generation has one analysis for
each root that some beginning of the word spells, or the fixed paths of that root, after the steps
forced on them. Each generation is divided: an analysis in a terminal state is finished, and counts
if it has read all input; the others go on to the next generation along the paradigm. The search
ends when no analysis is left to go on.

## Main definitions

- `Options`, `Analyzer` — what an analyser consists of
- `Analyzer.seeds` — where the analyses of a word begin
- `Analyzer.successors` — the steps an analysis can take
- `Analyzer.parse` — the analyses of a word
- `Analyzer.ofIndex`, `Analyzer.sample`, `Analyzer.ofDictionary` — analysers for Turkish

## Design notes

Analyses come in the order of generations, and within a generation in the order of those they
stem from and of the continuations they took.
-/

namespace TurkishMorphology

structure Options where
  /-- How many generations follow the first before a word is given up. -/
  maxGenerations : Nat := 256
  sources : SourceOptions := {}
deriving DecidableEq, Repr, Inhabited

/-- A grammar, its paradigm, and where analyses begin. -/
structure Analyzer where
  grammar : Grammar
  paradigm : Paradigm
  source : RootSource
  forcing : Forcing
  fixedPaths : FixedPaths
  options : Options

namespace Analyzer

/-- The analyser with the given parts and the paradigm of the grammar. -/
def ofParts (grammar : Grammar) (source : RootSource) (forcing : Forcing)
    (fixedPaths : FixedPaths) (options : Options) : Analyzer :=
  { grammar, paradigm := .ofGrammar grammar, source, forcing, fixedPaths, options }

/-- The beginnings of a word that are not empty, the shortest first. -/
def beginnings (word : Word) : List Word :=
  (List.range word.length).map fun i => word.take (i + 1)

/-- Where the analyses of a word begin with a root: its fixed paths if it has any, and otherwise
    the root alone. -/
def seedsOf (z : Analyzer) (word : Word) (root : Root) (rest : Word) :
    Except AnalysisFault (List Analysis) :=
  if z.fixedPaths.has root then
    .ok <| (z.fixedPaths.get root).filterMap fun path => path.rebase word
  else
    match z.grammar.rootState root with
    | .ok state => .ok [Analysis.begin root state rest]
    | .error e => .error (.grammar e)

/-- Where the analyses of a word begin with the given beginning. -/
def seedsAt (z : Analyzer) (word beginning : Word) : Except AnalysisFault (List Analysis) := do
  if z.source.accepts beginning word then
    let seeds ← (z.source.roots beginning word).mapM fun root =>
      z.seedsOf word root (word.drop beginning.length)
    return seeds.flatten
  else return []

/-- Where the analyses of a word begin. -/
def seeds (z : Analyzer) (word : Word) : Except AnalysisFault (List Analysis) := do
  let seeds ← (beginnings word).mapM (z.seedsAt word)
  return seeds.flatten

/-- Whether an analysis is in a terminal state. -/
def isFinished (z : Analyzer) (a : Analysis) : Bool := (z.grammar.state a.state).isTerminal

def complete (z : Analyzer) (as : List Analysis) : List Analysis :=
  as.filter fun a => z.isFinished a && a.remaining.isEmpty

def unfinished (z : Analyzer) (as : List Analysis) : List Analysis :=
  as.filter fun a => !z.isFinished a

/-- The steps that an analysis can take. Only continuations that the input goes on with are
    judged. -/
def successors (z : Analyzer) (a : Analysis) : Except AnalysisFault (List Analysis) :=
  match z.paradigm.cell? a.state a.attributes with
  | none => .error (.cellMissing (z.grammar.state a.state).name a.attributes)
  | some cell =>
    .ok <| (cell.continuations.filter fun c => c.realization.text.isPrefixOf a.remaining).filterMap
      fun c => (a.takeContinuation z.grammar c).toOption

/-- The next generation of the given analyses. -/
def generation (z : Analyzer) (as : List Analysis) : Except AnalysisFault (List Analysis) := do
  let next ← as.mapM z.successors
  return next.flatten

/-- The complete analyses of a generation and of those after it, of which at most the given number
    may be needed. -/
def search (z : Analyzer) : Nat → List Analysis → Except AnalysisFault (List Analysis)
  | left, as =>
    match z.unfinished as, left with
    | [], _ => .ok (z.complete as)
    | live, 0 => .error (.generationsExceeded live.length z.options.maxGenerations)
    | live, left + 1 => do
      let next ← z.generation live
      let later ← search z left next
      return z.complete as ++ later

/-- The analyses of a word, or what went wrong. The empty word has none. -/
def run (z : Analyzer) (word : Word) : Except AnalysisFault (List Analysis) :=
  if word.isEmpty then .ok []
  else do
    let seeds ← z.seeds word
    let forced ← z.forcing.apply z.grammar seeds
    z.search z.options.maxGenerations forced

/-- The analyses of a word; an error names the word. -/
def parse (z : Analyzer) (word : Word) : Except AnalysisError (List Analysis) :=
  (z.run word).mapError fun fault => ⟨word, fault⟩

/-- What can be wrong with the making of an analyser. -/
inductive BuildError where
  | lexicon (error : LexiconError)
  | grammar (error : GrammarError)
deriving DecidableEq

def BuildError.message : BuildError → String
  | .lexicon e => e.message
  | .grammar e => e.message

/-- The analyser for Turkish with the given roots. -/
def ofIndex (index : RootIndex) (options : Options) : Except GrammarError Analyzer := do
  let grammar := Turkish.grammar
  let forcing ← Forcing.turkish grammar
  let fixedPaths ← FixedPaths.turkish grammar index
  return { grammar, paradigm := Turkish.paradigm, source := options.sources.chain index, forcing
           fixedPaths, options }

/-- The analyser for Turkish with the roots of the sample dictionary. -/
def sample (lexicon : LexiconOptions) (options : Options) : Except BuildError Analyzer := do
  let index ← (Sample.index lexicon).mapError .lexicon
  (ofIndex index options).mapError .grammar

/-- The analyser for Turkish with the roots of a dictionary text. -/
def ofDictionary (lexicon : LexiconOptions) (options : Options) (text : Word) :
    Except BuildError Analyzer := do
  let lexemes ← (Entry.readAll text).mapError .lexicon
  let index ← (RootIndex.ofLexemes lexicon lexemes).mapError .lexicon
  (ofIndex index options).mapError .grammar

end Analyzer

end TurkishMorphology
