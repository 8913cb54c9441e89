import TurkishMorphology.FlagSet
import TurkishMorphology.Text.CodeRange
import TurkishMorphology.Text.Space
import TurkishMorphology.Text.Alphanumeric
import TurkishMorphology.Text.Case
import TurkishMorphology.Text.Json
import TurkishMorphology.Alphabet
import TurkishMorphology.Word
import TurkishMorphology.PartOfSpeech
import TurkishMorphology.Lexeme
import TurkishMorphology.Phonetics.Attribute
import TurkishMorphology.Phonetics.Validity
import TurkishMorphology.Phonetics.Context
import TurkishMorphology.Root
import TurkishMorphology.Numeral
import TurkishMorphology.Lexicon.Error
import TurkishMorphology.Lexicon.Inference
import TurkishMorphology.Lexicon.Entry
import TurkishMorphology.Lexicon.Stem
import TurkishMorphology.Lexicon.RootIndex
import TurkishMorphology.Lexicon.RootSource
import TurkishMorphology.Lexicon.Sample
import TurkishMorphology.Grammar.Template
import TurkishMorphology.Grammar.Basic
import TurkishMorphology.Grammar.Making
import TurkishMorphology.Grammar.Paradigm
import TurkishMorphology.Grammar.Turkish.Names
import TurkishMorphology.Grammar.Turkish.Suffixes
import TurkishMorphology.Grammar.Turkish
import TurkishMorphology.Analysis.Basic
import TurkishMorphology.Analysis.Gate
import TurkishMorphology.Analysis.Error
import TurkishMorphology.Analysis.Forcing
import TurkishMorphology.Analysis.FixedPath
import TurkishMorphology.Analysis.Irregular
import TurkishMorphology.Analysis.Render
import TurkishMorphology.Analyzer
import TurkishMorphology.Memo
import TurkishMorphology.CommandLine
import TurkishMorphology.Main
import TurkishMorphology.Proofs.Result
import TurkishMorphology.Proofs.Word
import TurkishMorphology.Proofs.Numeral
import TurkishMorphology.Proofs.Numeral.Tables
import TurkishMorphology.Proofs.Numeral.Reading
import TurkishMorphology.Proofs.Numeral.Digits
import TurkishMorphology.Proofs.Phonetics.Sound
import TurkishMorphology.Proofs.Phonetics.Contexts
import TurkishMorphology.Proofs.Phonetics.Exactness
import TurkishMorphology.Proofs.Grammar.Continuation
import TurkishMorphology.Proofs.Grammar.Turkish
import TurkishMorphology.Proofs.Grammar.Template
import TurkishMorphology.Proofs.Grammar.Spelling
import TurkishMorphology.Proofs.Grammar.Numbering
import TurkishMorphology.Proofs.Grammar.Log
import TurkishMorphology.Proofs.Grammar.Making
import TurkishMorphology.Proofs.Grammar.Harmony
import TurkishMorphology.Proofs.Grammar.Start
import TurkishMorphology.Proofs.Grammar.Exploration
import TurkishMorphology.Proofs.Grammar.Silence
import TurkishMorphology.Proofs.Lexicon.Stem
import TurkishMorphology.Proofs.Lexicon.Alternation
import TurkishMorphology.Proofs.Lexicon.Openness
import TurkishMorphology.Proofs.Lexicon.VowelDrop
import TurkishMorphology.Proofs.Lexicon.RootIndex
import TurkishMorphology.Proofs.Lexicon.RootSource
import TurkishMorphology.Proofs.Lexicon.LongestNumeral
import TurkishMorphology.Proofs.Lexicon.Acceptance
import TurkishMorphology.Proofs.Lexicon.Circumflex
import TurkishMorphology.Proofs.Lexicon.Context
import TurkishMorphology.Proofs.Lexicon.Metadata
import TurkishMorphology.Proofs.Lexicon.Growth
import TurkishMorphology.Proofs.Lexicon.Inference
import TurkishMorphology.Proofs.Lexicon.Closure
import TurkishMorphology.Proofs.Lexicon.Tags
import TurkishMorphology.Proofs.Lexicon.Letters
import TurkishMorphology.Proofs.Analysis.Step
import TurkishMorphology.Proofs.Analysis.Trace
import TurkishMorphology.Proofs.Analysis.Segment
import TurkishMorphology.Proofs.Analysis.Run
import TurkishMorphology.Proofs.Analysis.FixedPath
import TurkishMorphology.Proofs.Analysis.Forcing
import TurkishMorphology.Proofs.Analysis.Expectation
import TurkishMorphology.Proofs.Analysis.Respelling
import TurkishMorphology.Proofs.Analysis.Irregular
import TurkishMorphology.Proofs.Analysis.Place
import TurkishMorphology.Proofs.Analysis.Position
import TurkishMorphology.Proofs.Analysis.Recomputation
import TurkishMorphology.Proofs.Analysis.Anchoring
import TurkishMorphology.Proofs.Analysis.Progressive
import TurkishMorphology.Proofs.Analysis.Prediction
import TurkishMorphology.Proofs.Analysis.Agreement
import TurkishMorphology.Proofs.Analysis.Digits
import TurkishMorphology.Proofs.Analysis.Exclusivity
import TurkishMorphology.Proofs.Analysis.UnvoicedStop
import TurkishMorphology.Proofs.Analysis.Render
import TurkishMorphology.Proofs.Analysis.History
import TurkishMorphology.Proofs.Analysis.Conjugation
import TurkishMorphology.Proofs.Analysis.Foresight
import TurkishMorphology.Proofs.Analyzer.Generation
import TurkishMorphology.Proofs.Analyzer.Walk
import TurkishMorphology.Proofs.Analyzer.Parse
import TurkishMorphology.Proofs.Analyzer.Dictionary
import TurkishMorphology.Proofs.Analyzer.Evaluation
import TurkishMorphology.Proofs.Analyzer.Exactness
import TurkishMorphology.Proofs.Analyzer.Soundness
import TurkishMorphology.Proofs.Analyzer.Voicing
import TurkishMorphology.Proofs.Analyzer.Circumflex
import TurkishMorphology.Proofs.Analyzer.Cells
import TurkishMorphology.Proofs.Analyzer.Termination
import TurkishMorphology.Proofs.Analyzer.ForcedSteps
import TurkishMorphology.Proofs.Analyzer.Totality
import TurkishMorphology.Proofs.Analyzer.OptionalVoicing
import TurkishMorphology.Proofs.Analyzer.Exclusivity
import TurkishMorphology.Proofs.Analyzer.UnvoicedStop
import TurkishMorphology.Proofs.Analyzer.VowelDrop
import TurkishMorphology.Proofs.Analyzer.Divergence
import TurkishMorphology.Proofs.Analyzer.Render
import TurkishMorphology.Proofs.Analyzer.Growth
import TurkishMorphology.Proofs.Analyzer.Sources
import TurkishMorphology.Proofs.Memo
