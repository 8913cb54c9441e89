import TurkishMorphology.Analysis.Gate
/-!
# Errors of analysis

A word without an analysis is no error. Errors show that the grammar, the forced steps and the
paradigm do not fit together, or that a word has more steps than the analyser is willing to take.

## Main definitions

- `AnalysisFault` — what went wrong
- `AnalysisError`, `AnalysisError.message` — what went wrong with which word
-/

namespace TurkishMorphology

inductive AnalysisFault where
  /-- The paradigm has no cell for a state in a context. -/
  | cellMissing (state : String) (attributes : PhoneticAttributes)
  /-- Analyses were still going on after the last generation allowed. -/
  | generationsExceeded (count generations : Nat)
  /-- A forced step was refused for another reason than the input. -/
  | forcedStepRefused (suffix : String) (refusal : Refusal)
  | grammar (error : GrammarError)
deriving DecidableEq

/-- What went wrong with which word. -/
structure AnalysisError where
  word : Word
  fault : AnalysisFault
deriving DecidableEq

def AnalysisFault.message : AnalysisFault → String
  | .cellMissing state attributes =>
    "no form graph node for state " ++ state ++ " with attributes "
      ++ String.intercalate "," (attributes.toList.map PhoneticAttribute.tag)
  | .generationsExceeded count generations =>
    toString count ++ " candidates left after " ++ toString generations ++ " generations"
  | .forcedStepRefused suffix refusal =>
    "mandatory transition " ++ suffix ++ " failed: " ++ refusal.message
  | .grammar error => error.message

def AnalysisError.message (e : AnalysisError) : String :=
  "`" ++ e.word.text ++ "`: " ++ e.fault.message

end TurkishMorphology
