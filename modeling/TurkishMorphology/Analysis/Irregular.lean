import TurkishMorphology.Analysis.FixedPath
/-!
# The fixed paths of Turkish

The case forms of the personal and demonstrative pronouns, and the forms of the verbs `demek` and
`yemek` in which their stem is `di` or `yi`.

## Main definitions

- `Irregular.drafts` — the paths of all irregular roots
- `FixedPaths.turkish` — the paths of the irregular roots that an index has
-/

namespace TurkishMorphology.Irregular

/-- A case of a pronoun: the suffix, its template and its text. -/
structure Case where
  suffix : String
  template : Word
  text : Word

/-- Agreement and no possession, followed by one of the cases. -/
def caseForms (agreement : String) (cases : List Case) : List (List PathStep) :=
  cases.map fun c =>
    [{ suffix := agreement, template := [], text := [], target := "PRONOUN_WITH_AGREEMENT" },
      { suffix := "Pron_Pnon", template := [], text := [], target := "PRONOUN_WITH_POSSESSION" },
      { suffix := c.suffix, template := c.template, text := c.text
        target := "PRONOUN_WITH_CASE" }]

def nominative : Case := ⟨"Pron_Nom", [], []⟩

def accusative (text : Word) : Case := ⟨"Pron_Acc", ['+', 'y', 'I'], text⟩

def dative (text : Word) : Case := ⟨"Pron_Dat", ['+', 'y', 'A'], text⟩

def locative (text : Word) : Case := ⟨"Pron_Loc", ['d', 'A'], text⟩

def ablative (text : Word) : Case := ⟨"Pron_Abl", ['d', 'A', 'n'], text⟩

/-- The genitive in its regular template. -/
def genitive (text : Word) : Case := ⟨"Pron_Gen", ['+', 'n', 'I', 'n'], text⟩

/-- The genitive of the first person. -/
def genitiveIm : Case := ⟨"Pron_Gen", ['i', 'm'], ['i', 'm']⟩

/-- An instrumental that is spelled as its template. -/
def instrumental (text : Word) : Case := ⟨"Pron_Ins", text, text⟩

def pronoun (surface lemmaRoot : Word) (paths : List (List PathStep)) : PathDraft :=
  { lemmaRoot, pos := .pronoun, surface, paths }

/-- The stem of a demonstrative, which has every case but the nominative, and the plural. -/
def demonstrativeStem (surface lemmaRoot : Word) : PathDraft :=
  pronoun surface lemmaRoot <|
    caseForms "Pron_A3sg" [
      accusative ['u'], dative ['a'], locative ['d', 'a'], ablative ['d', 'a', 'n'],
      genitive ['u', 'n'], instrumental ['u', 'n', 'l', 'a']]
    ++ [[{ suffix := "Pron_A3pl", template := ['l', 'A', 'r'], text := ['l', 'a', 'r']
           target := "PRONOUN_WITH_AGREEMENT" }]]

/-- The positive, which all forms of a verb stem begin with. -/
def positive : PathStep := ⟨"Pos", [], [], "VERB_WITH_POLARITY", false⟩

/-- The way to words made from the verb. -/
def derivation : PathStep := ⟨"Verb_Polarity_Deriv_Free", [], [], "VERB_POLARITY_DERIV", false⟩

/-- The forms of a verb whose stem ends in i. -/
def verbStem (surface lemmaRoot : Word) : PathDraft where
  lemmaRoot
  pos := .verb
  surface
  paths := [
    [positive, ⟨"Prog", ['+', 'I', 'y', 'o', 'r'], ['y', 'o', 'r'], "VERB_WITH_TENSE", false⟩],
    [positive,
      ⟨"Fut", ['+', 'y', 'A', 'c', 'A', 'k'], ['y', 'e', 'c', 'e', 'k'], "VERB_WITH_TENSE",
        false⟩],
    [positive,
      ⟨"Fut", ['+', 'y', 'A', 'c', 'A', 'k'], ['y', 'e', 'c', 'e', 'ğ'], "VERB_WITH_TENSE",
        true⟩],
    [positive, ⟨"Opt", ['+', 'y', 'A'], ['y', 'e'], "VERB_WITH_TENSE", false⟩],
    [positive, derivation,
      ⟨"PresPart", ['+', 'y', 'A', 'n'], ['y', 'e', 'n'], "ADJECTIVE_ROOT", false⟩],
    [positive, derivation,
      ⟨"Inf3", ['+', 'y', 'I', 'ş'], ['y', 'i', 'ş'], "NOUN_ROOT", false⟩],
    [positive, derivation,
      ⟨"AfterDoingSo", ['+', 'y', 'I', 'p'], ['y', 'i', 'p'], "ADVERB_ROOT", false⟩],
    [positive, derivation,
      ⟨"ByDoingSo", ['+', 'y', 'A', 'r', 'A', 'k'], ['y', 'e', 'r', 'e', 'k'], "ADVERB_ROOT",
        false⟩]]

def drafts : List PathDraft := [
  pronoun ['b', 'e', 'n'] ['b', 'e', 'n'] <| caseForms "Pron_A1sg" [
    nominative, accusative ['i'], locative ['d', 'e'], ablative ['d', 'e', 'n'],
    genitiveIm, instrumental ['i', 'm', 'l', 'e']],
  pronoun ['b', 'a', 'n'] ['b', 'e', 'n'] <| caseForms "Pron_A1sg" [dative ['a']],
  pronoun ['s', 'e', 'n'] ['s', 'e', 'n'] <| caseForms "Pron_A2sg" [
    nominative, accusative ['i'], locative ['d', 'e'], ablative ['d', 'e', 'n'],
    genitive ['i', 'n'], instrumental ['i', 'n', 'l', 'e']],
  pronoun ['s', 'a', 'n'] ['s', 'e', 'n'] <| caseForms "Pron_A2sg" [dative ['a']],
  pronoun ['b', 'i', 'z'] ['b', 'i', 'z'] <| caseForms "Pron_A1pl" [
    nominative, accusative ['i'], dative ['e'], locative ['d', 'e'], ablative ['d', 'e', 'n'],
    genitiveIm, instrumental ['i', 'm', 'l', 'e']],
  pronoun ['s', 'i', 'z'] ['s', 'i', 'z'] <| caseForms "Pron_A2pl" [
    nominative, accusative ['i'], dative ['e'], locative ['d', 'e'], ablative ['d', 'e', 'n'],
    genitive ['i', 'n'], instrumental ['i', 'n', 'l', 'e']],
  pronoun ['o'] ['o'] <| caseForms "Pron_A3sg" [nominative],
  demonstrativeStem ['o', 'n'] ['o'],
  pronoun ['b', 'u'] ['b', 'u'] <| caseForms "Pron_A3sg" [nominative],
  demonstrativeStem ['b', 'u', 'n'] ['b', 'u'],
  pronoun ['ş', 'u'] ['ş', 'u'] <| caseForms "Pron_A3sg" [nominative],
  demonstrativeStem ['ş', 'u', 'n'] ['ş', 'u'],
  verbStem ['d', 'i'] ['d', 'e'],
  verbStem ['y', 'i'] ['y', 'e']]

end TurkishMorphology.Irregular

namespace TurkishMorphology

/-- The paths of the irregular roots that the index has. -/
def FixedPaths.turkish (g : Grammar) (index : RootIndex) : Except GrammarError FixedPaths :=
  FixedPaths.build g index Irregular.drafts

end TurkishMorphology
