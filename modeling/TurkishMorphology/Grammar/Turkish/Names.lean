import TurkishMorphology.Grammar.Basic
/-!
# States, groups and suffixes of Turkish

The grammar of Turkish is given by tables over three enumerations: its states, its groups of
suffixes that exclude each other, and its suffixes. The position of a member in its enumeration is
its number in the grammar.

## Main definitions

- `Turkish.StateName`, `StateName.state` — the states
- `Turkish.GroupName` — the groups
- `Turkish.SuffixName` — the suffixes
-/

namespace TurkishMorphology.Turkish

inductive StateName where
  | conjunctionRoot | interjectionRoot | determinerRoot | postpositionRoot | questionRoot
  | punctuationRoot | partRoot
  | nounRoot | nounWithAgreement | nounWithPossession | nounWithCase | nounTerminal
  | nounDeriv | nounNomDeriv | properNounRoot
  | adjectiveRoot | adjectiveTerminal | adjectiveDeriv
  | adverbRoot | adverbTerminal
  | pronounRoot | pronounWithAgreement | pronounWithPossession | pronounWithCase
  | pronounTerminal | pronounDeriv
  | verbRoot | verbPlainDeriv | verbWithPolarity | verbPolarityDeriv | verbWithTense
  | verbImperative | verbCopula | verbTerminal
  | numeralRoot | numeralTerminal | numeralDeriv
deriving DecidableEq, Repr, Inhabited

namespace StateName

/-- Every state, in the order of their numbers. -/
def all : List StateName :=
  [.conjunctionRoot, .interjectionRoot, .determinerRoot, .postpositionRoot, .questionRoot,
    .punctuationRoot, .partRoot, .nounRoot, .nounWithAgreement, .nounWithPossession,
    .nounWithCase, .nounTerminal, .nounDeriv, .nounNomDeriv, .properNounRoot, .adjectiveRoot,
    .adjectiveTerminal, .adjectiveDeriv, .adverbRoot, .adverbTerminal, .pronounRoot,
    .pronounWithAgreement, .pronounWithPossession, .pronounWithCase, .pronounTerminal,
    .pronounDeriv, .verbRoot, .verbPlainDeriv, .verbWithPolarity, .verbPolarityDeriv,
    .verbWithTense, .verbImperative, .verbCopula, .verbTerminal, .numeralRoot,
    .numeralTerminal, .numeralDeriv]

def id (s : StateName) : StateId := ⟨s.ctorIdx⟩

def state : StateName → State
  | .conjunctionRoot => ⟨"CONJUNCTION_ROOT", .terminal, .conjunction⟩
  | .interjectionRoot => ⟨"INTERJECTION_ROOT", .terminal, .interjection⟩
  | .determinerRoot => ⟨"DETERMINER_ROOT", .terminal, .determiner⟩
  | .postpositionRoot => ⟨"POSTPOSITION_ROOT", .terminal, .postposition⟩
  | .questionRoot => ⟨"QUESTION_ROOT", .terminal, .question⟩
  | .punctuationRoot => ⟨"PUNCTUATION_ROOT", .terminal, .punctuation⟩
  | .partRoot => ⟨"PART_ROOT", .terminal, .part⟩
  | .nounRoot => ⟨"NOUN_ROOT", .nonTerminal, .noun⟩
  | .nounWithAgreement => ⟨"NOUN_WITH_AGREEMENT", .nonTerminal, .noun⟩
  | .nounWithPossession => ⟨"NOUN_WITH_POSSESSION", .nonTerminal, .noun⟩
  | .nounWithCase => ⟨"NOUN_WITH_CASE", .transfer, .noun⟩
  | .nounTerminal => ⟨"NOUN_TERMINAL", .terminal, .noun⟩
  | .nounDeriv => ⟨"NOUN_DERIV", .derivational, .noun⟩
  | .nounNomDeriv => ⟨"NOUN_NOM_DERIV", .derivational, .noun⟩
  | .properNounRoot => ⟨"PROPER_NOUN_ROOT", .nonTerminal, .noun⟩
  | .adjectiveRoot => ⟨"ADJECTIVE_ROOT", .nonTerminal, .adjective⟩
  | .adjectiveTerminal => ⟨"ADJECTIVE_TERMINAL", .terminal, .adjective⟩
  | .adjectiveDeriv => ⟨"ADJECTIVE_DERIV", .derivational, .adjective⟩
  | .adverbRoot => ⟨"ADVERB_ROOT", .nonTerminal, .adverb⟩
  | .adverbTerminal => ⟨"ADVERB_TERMINAL", .terminal, .adverb⟩
  | .pronounRoot => ⟨"PRONOUN_ROOT", .nonTerminal, .pronoun⟩
  | .pronounWithAgreement => ⟨"PRONOUN_WITH_AGREEMENT", .nonTerminal, .pronoun⟩
  | .pronounWithPossession => ⟨"PRONOUN_WITH_POSSESSION", .nonTerminal, .pronoun⟩
  | .pronounWithCase => ⟨"PRONOUN_WITH_CASE", .transfer, .pronoun⟩
  | .pronounTerminal => ⟨"PRONOUN_TERMINAL", .terminal, .pronoun⟩
  | .pronounDeriv => ⟨"PRONOUN_DERIV", .derivational, .pronoun⟩
  | .verbRoot => ⟨"VERB_ROOT", .nonTerminal, .verb⟩
  | .verbPlainDeriv => ⟨"VERB_PLAIN_DERIV", .derivational, .verb⟩
  | .verbWithPolarity => ⟨"VERB_WITH_POLARITY", .nonTerminal, .verb⟩
  | .verbPolarityDeriv => ⟨"VERB_POLARITY_DERIV", .derivational, .verb⟩
  | .verbWithTense => ⟨"VERB_WITH_TENSE", .nonTerminal, .verb⟩
  | .verbImperative => ⟨"VERB_IMPERATIVE", .nonTerminal, .verb⟩
  | .verbCopula => ⟨"VERB_COPULA", .nonTerminal, .verb⟩
  | .verbTerminal => ⟨"VERB_TERMINAL", .terminal, .verb⟩
  | .numeralRoot => ⟨"NUMERAL_ROOT", .nonTerminal, .numeral⟩
  | .numeralTerminal => ⟨"NUMERAL_TERMINAL", .terminal, .numeral⟩
  | .numeralDeriv => ⟨"NUMERAL_DERIV", .derivational, .numeral⟩

theorem mem_all (s : StateName) : s ∈ all := by cases s <;> decide

end StateName

/-- The groups of suffixes that exclude each other between two derivations. -/
inductive GroupName where
  | agreements | possessives | cases | polarities | tenses | copulaTenses
deriving DecidableEq, Repr, Inhabited

namespace GroupName

/-- Every group, in the order of their numbers. -/
def all : List GroupName :=
  [.agreements, .possessives, .cases, .polarities, .tenses, .copulaTenses]

def id (x : GroupName) : GroupId := ⟨x.ctorIdx⟩

def name : GroupName → String
  | .agreements => "Agreements"
  | .possessives => "Possessives"
  | .cases => "Cases"
  | .polarities => "Polarities"
  | .tenses => "Tenses"
  | .copulaTenses => "CopulaTenses"

end GroupName

inductive SuffixName where
  -- nouns
  | a3sg | a3pl
  | pnon | p1sg | p2sg | p3sg | p1pl | p2pl | p3pl
  | nom | acc | dat | loc | abl | gen | ins | equ
  | nomDeriv | having | lacking | ness | agt | dim | become | acquire
  | nounFree | nounCopulaFree | nounZero | rel
  -- proper nouns, adjectives and adverbs
  | propApos | propFree | adjFree | adjDerivFree | adjZero | ly | advFree
  -- pronouns
  | pronA1sg | pronA2sg | pronA1pl | pronA2pl | pronA3sg | pronA3pl
  | pronPnon
  | pronNom | pronAcc | pronDat | pronLoc | pronAbl | pronGen | pronIns
  | pronFree | pronDerivFree | pronZero
  -- verbs
  | prog | pos | neg
  | caus | pass | able | verbDerivFree
  | fut | past | narr | aor | neces | opt | desr | imp
  | verbPolarityDerivFree | inf1 | inf2 | inf3 | pastPart | futPart | presPart
  | afterDoingSo | byDoingSo
  | impA2sg | impA3sg | impA2pl | impA3pl
  | pres | pastCop | narrCop | condCop
  | verbA1sg | verbA2sg | verbA3sg | verbA1pl | verbA2pl | verbA3pl
  -- numerals
  | numFree | numDerivFree | numApos | numZero
deriving DecidableEq, Repr, Inhabited

namespace SuffixName

/-- Every suffix, in the order of their numbers. -/
def all : List SuffixName :=
  [.a3sg, .a3pl, .pnon, .p1sg, .p2sg, .p3sg, .p1pl, .p2pl, .p3pl, .nom, .acc, .dat, .loc, .abl,
    .gen, .ins, .equ, .nomDeriv, .having, .lacking, .ness, .agt, .dim, .become, .acquire,
    .nounFree, .nounCopulaFree, .nounZero, .rel, .propApos, .propFree, .adjFree, .adjDerivFree,
    .adjZero, .ly, .advFree, .pronA1sg, .pronA2sg, .pronA1pl, .pronA2pl, .pronA3sg, .pronA3pl,
    .pronPnon, .pronNom, .pronAcc, .pronDat, .pronLoc, .pronAbl, .pronGen, .pronIns, .pronFree,
    .pronDerivFree, .pronZero, .prog, .pos, .neg, .caus, .pass, .able, .verbDerivFree, .fut,
    .past, .narr, .aor, .neces, .opt, .desr, .imp, .verbPolarityDerivFree, .inf1, .inf2, .inf3,
    .pastPart, .futPart, .presPart, .afterDoingSo, .byDoingSo, .impA2sg, .impA3sg, .impA2pl,
    .impA3pl, .pres, .pastCop, .narrCop, .condCop, .verbA1sg, .verbA2sg, .verbA3sg, .verbA1pl,
    .verbA2pl, .verbA3pl, .numFree, .numDerivFree, .numApos, .numZero]

def id (s : SuffixName) : SuffixId := ⟨s.ctorIdx⟩

theorem mem_all (s : SuffixName) : s ∈ all := by cases s <;> decide

end SuffixName

end TurkishMorphology.Turkish
