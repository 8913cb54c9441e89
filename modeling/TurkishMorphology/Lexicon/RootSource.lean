import TurkishMorphology.Lexicon.RootIndex
import TurkishMorphology.Numeral
/-!
# Where roots come from

A root source looks at a beginning of a word and tells which roots might be spelled by it. The
dictionary is one source; strings of digits, capitalised words and punctuation are others, whose
roots are made from the input. Sources are combined into chains: they are asked in order, and an
exclusive source that accepts the beginning ends the chain.

## Main definitions

- `RootSource` — which beginnings it accepts, and which roots it finds
- `RootSource.dictionary`, `numeral`, `apostrophe`, `capitalised`, `punctuation`
- `RootSource.chain` — sources asked in order
- `SourceOptions.chain` — the sources of an analyser
-/

namespace TurkishMorphology

/-- A source of roots. Both functions get a beginning of a word and the whole word. -/
structure RootSource where
  /-- Whether the source has anything to say about the beginning. -/
  accepts : Word → Word → Bool
  roots : Word → Word → List Root

structure RootSource.Link where
  source : RootSource
  /-- Whether the sources after it are left out when it accepts. -/
  exclusive : Bool

namespace RootSource

/-- The roots that the links find, up to the first exclusive link that accepts. -/
def rootsAlong (beginning whole : Word) : List Link → List Root
  | [] => []
  | link :: rest =>
    if link.source.accepts beginning whole then
      link.source.roots beginning whole ++
        if link.exclusive then [] else rootsAlong beginning whole rest
    else rootsAlong beginning whole rest

def chain (links : List Link) : RootSource where
  accepts beginning whole := links.any fun link => link.source.accepts beginning whole
  roots beginning whole := rootsAlong beginning whole links

def dictionary (index : RootIndex) : RootSource where
  accepts beginning _ := !beginning.isEmpty
  roots beginning _ := index.get beginning

/-- What follows a beginning in the whole word. -/
def rest? (beginning whole : Word) : Option Word :=
  if beginning.isPrefixOf whole then some (whole.drop beginning.length) else none

/-- Whether a numeral goes on into the given rest: with a digit, or with a comma and a digit. -/
def continuesNumeral : Word → Bool
  | ',' :: c :: _ => c.isDigit
  | c :: _ => c.isDigit
  | [] => false

/-- The root that digits write. -/
def numeralRoots (digits : Word) : List Root :=
  match Numeral.ofDigits? digits with
  | none => []
  | some text =>
    [Root.numeral digits
      { citation := digits, lemmaRoot := digits, pos := .numeral, secondary := some .digits
        attributes := .ofList [.noVoicing], origin := .dynamic } text]

/-- Numbers written in digits. Only the longest numeral at the beginning of a word is accepted. -/
def numeral : RootSource where
  accepts beginning whole :=
    Numeral.isNumeral beginning && (rest? beginning whole).any fun rest => !continuesNumeral rest
  roots beginning _ := numeralRoots beginning

/-- Whether the word begins with an uppercase character. -/
def isCapitalised (w : Word) : Bool := w.head?.any Text.isUppercase

/-- The proper noun with the given spelling. -/
def properNoun (surface : Word) : Root :=
  Root.coined surface
    { citation := surface, lemmaRoot := surface, pos := .noun, secondary := some .properNoun
      attributes := .ofList [.noVoicing], origin := .dynamic }

/-- Capitalised words up to the apostrophe that sets off their suffixes. -/
def apostrophe : RootSource where
  accepts beginning whole :=
    isCapitalised beginning && !beginning.contains '\''
      && (rest? beginning whole).any fun rest => rest.head? == some '\''
  roots beginning _ := [properNoun beginning]

/-- Whole words that are capitalised and have no apostrophe. -/
def capitalised : RootSource where
  accepts beginning whole :=
    beginning == whole && isCapitalised beginning && !beginning.contains '\''
  roots beginning _ := [properNoun beginning]

/-- Whole words of punctuation. -/
def punctuation : RootSource where
  accepts beginning whole :=
    beginning == whole && !beginning.isEmpty
      && beginning.all fun c => !Text.isAlphanumeric c && !Text.isSpace c
  roots beginning _ :=
    [Root.coined beginning
      { citation := beginning, lemmaRoot := beginning, pos := .punctuation, origin := .dynamic }]

end RootSource

/-- Which sources an analyser asks besides the dictionary. -/
structure SourceOptions where
  numerals : Bool := true
  properNouns : Bool := true
  punctuation : Bool := true
deriving DecidableEq, Repr, Inhabited

open RootSource in
/-- The sources besides the dictionary: numerals and punctuation exclude what comes after them,
    proper nouns do not. -/
def SourceOptions.besides (options : SourceOptions) : List Link :=
  (if options.numerals then [⟨numeral, true⟩] else [])
    ++ (if options.punctuation then [⟨.punctuation, true⟩] else [])
    ++ (if options.properNouns then [⟨apostrophe, false⟩, ⟨capitalised, false⟩] else [])

/-- A dictionary after the sources besides it. -/
def SourceOptions.chainWith (options : SourceOptions) (dictionary : RootSource) : RootSource :=
  .chain (options.besides ++ [⟨dictionary, false⟩])

/-- The sources of an analyser, the dictionary among them being the index. -/
def SourceOptions.chain (options : SourceOptions) (index : RootIndex) : RootSource :=
  options.chainWith (.dictionary index)

end TurkishMorphology
