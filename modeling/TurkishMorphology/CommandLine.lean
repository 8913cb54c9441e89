import TurkishMorphology.Analysis.Render
import TurkishMorphology.Analyzer
import TurkishMorphology.Text.Json
/-!
# The command line

What the words of a command line mean, how the analyser it asks for is made, and how the outcome
of each word is printed.

## Main definitions

- `CommandLine.takeDictionary`, `takeFlag`, `wantsHelp` — options among the arguments
- `CommandLine.LoadError` — why an analyser cannot be made
- `CommandLine.analyzer` — the analyser over a dictionary text, or over the sample dictionary
- `Outcome`, `Analyzer.parseAll` — the outcome of each of several words
- `Outcome.render`, `Outcome.toJson` — an outcome as lines of text, or as a JSON object
-/

namespace TurkishMorphology

/-- What came of parsing a word. -/
structure Outcome where
  word : Word
  result : Except AnalysisError (List Analysis)

/-- Whether the word was parsed without error and has no analysis. -/
def Outcome.isUnparsable (o : Outcome) : Bool :=
  match o.result with
  | .ok [] => true
  | _ => false

/-- Parses each word on its own. -/
def Analyzer.parseAll (z : Analyzer) (words : List Word) : List Outcome :=
  words.map fun word => ⟨word, z.parse word⟩

/-- An outcome as text: the word, then one indented line for each analysis. -/
def Outcome.render (g : Grammar) (o : Outcome) : String :=
  o.word.text ++
    match o.result with
    | .error e => ": error: " ++ e.message
    | .ok [] => ": (no parse)"
    | .ok parses => String.join (":" :: parses.map fun a => "\n  " ++ (a.render g).text)

open Text in
def Summary.toJson (s : Summary) : Json := .object [
  ("formatted", .text s.formatted.text),
  ("lemma", .text s.citation.text),
  ("lemma_root", .text s.lemmaRoot.text),
  ("pos", .text s.pos.tag),
  ("root", .text s.root.text),
  ("suffixes", .array (s.suffixes.map .text)),
  ("surface", .text s.surface.text)]

open Text in
def Outcome.toJson (g : Grammar) (o : Outcome) : Json :=
  match o.result with
  | .error e => .object [("error", .text e.message), ("word", .text o.word.text)]
  | .ok parses => .object [
      ("parses", .array (parses.map fun a => (a.summary g).toJson)),
      ("word", .text o.word.text)]

namespace CommandLine

inductive ArgumentError where
  /-- An option stands at the end, without its value. -/
  | valueMissing (option : String)
  | unknownOption (option : String)
deriving DecidableEq

def ArgumentError.message : ArgumentError → String
  | .valueMissing option => option ++ " requires a value"
  | .unknownOption option => "unknown option " ++ option

/-- The dictionary that the arguments name, the last one counting, and the other arguments. -/
def takeDictionary : List String → Except ArgumentError (Option String × List String)
  | [] => .ok (none, [])
  | arg :: rest =>
    if arg == "--dict" || arg == "-d" then
      match rest with
      | [] => .error (.valueMissing arg)
      | path :: rest =>
        (takeDictionary rest).map fun (later, others) => (later.or (some path), others)
    else
      match arg.dropPrefix? "--dict=" with
      | some path =>
        (takeDictionary rest).map fun (later, others) => (later.or (some path.toString), others)
      | none => (takeDictionary rest).map fun (later, others) => (later, arg :: others)

/-- Whether a flag is among the arguments, and the arguments without it. -/
def takeFlag (flag : String) (args : List String) : Bool × List String :=
  (args.contains flag, args.filter fun a => a != flag)

def wantsHelp (args : List String) : Bool := args.contains "--help" || args.contains "-h"

/-- A dictionary file: where it is, and its text or why it could not be read. -/
structure DictionaryFile where
  path : String
  text : Except String String

/-- Why an analyser cannot be made. -/
inductive LoadError where
  /-- The file cannot be read, for the reason the system gives. -/
  | unreadable (path reason : String)
  | invalidDictionary (path : String) (error : LexiconError)
  | noRoots (path : String) (error : LexiconError)
  | notBuilt (error : Analyzer.BuildError)
deriving DecidableEq

def LoadError.message : LoadError → String
  | .unreadable path reason =>
    "failed to read " ++ path ++ ": failed to read dictionary " ++ path ++ ": " ++ reason
  | .invalidDictionary path e => "failed to read " ++ path ++ ": " ++ e.message
  | .noRoots path e => "failed to build roots from " ++ path ++ ": " ++ e.message
  | .notBuilt e => "failed to build parser: " ++ e.message

/-- The index of the roots in a dictionary file. -/
def loadIndex (file : DictionaryFile) (lexicon : LexiconOptions) : Except LoadError RootIndex := do
  let text ← file.text.mapError (.unreadable file.path)
  let lexemes ← (Entry.readAll text.toList).mapError (.invalidDictionary file.path)
  (RootIndex.ofLexemes lexicon lexemes).mapError (.noRoots file.path)

/-- The analyser over a dictionary file, or over the sample dictionary if none is named. -/
def analyzer (file : Option DictionaryFile) (lexicon : LexiconOptions) :
    Except LoadError Analyzer :=
  match file with
  | some file => do
    let index ← loadIndex file lexicon
    (Analyzer.ofIndex index {}).mapError fun e => .notBuilt (.grammar e)
  | none => (Analyzer.sample lexicon {}).mapError .notBuilt

end CommandLine

end TurkishMorphology
