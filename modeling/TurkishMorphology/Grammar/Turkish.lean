import TurkishMorphology.Grammar.Turkish.Suffixes
import TurkishMorphology.Grammar.Making
import TurkishMorphology.Grammar.Paradigm
/-!
# The grammar of Turkish

Which suffixes lead from which state to which, where roots begin, and the grammar made of all
tables. The suffixes that leave a state are tried in the order of the table.

## Main definitions

- `Turkish.connections` — the suffixes between two states
- `Turkish.rootStates` — where roots begin
- `Turkish.grammar`, `Turkish.paradigm` — the grammar and its paradigm
- `Turkish.making` — the steps that make the grammar
-/

namespace TurkishMorphology.Turkish

/-- Suffixes that lead from one state to another. -/
structure Connection where
  source : StateName
  suffixes : List SuffixName
  target : StateName

def connections : List Connection := [
  -- Nouns
  ⟨.nounRoot, [.a3sg, .a3pl], .nounWithAgreement⟩,
  ⟨.nounWithAgreement, [.pnon, .p1sg, .p2sg, .p3sg, .p1pl, .p2pl, .p3pl], .nounWithPossession⟩,
  ⟨.nounWithPossession, [.nom, .acc, .dat, .loc, .abl, .gen, .ins, .equ], .nounWithCase⟩,
  ⟨.nounWithPossession, [.nomDeriv], .nounNomDeriv⟩,
  ⟨.nounNomDeriv, [.having, .lacking], .adjectiveRoot⟩,
  ⟨.nounNomDeriv, [.ness, .agt, .dim], .nounRoot⟩,
  ⟨.nounNomDeriv, [.become, .acquire], .verbRoot⟩,
  ⟨.nounWithCase, [.nounFree], .nounTerminal⟩,
  ⟨.nounWithCase, [.nounCopulaFree], .nounDeriv⟩,
  ⟨.nounDeriv, [.nounZero], .verbCopula⟩,
  ⟨.nounDeriv, [.rel], .adjectiveRoot⟩,
  -- Proper nouns, adjectives and adverbs
  ⟨.properNounRoot, [.propApos, .propFree], .nounRoot⟩,
  ⟨.adjectiveRoot, [.adjFree], .adjectiveTerminal⟩,
  ⟨.adjectiveRoot, [.adjDerivFree], .adjectiveDeriv⟩,
  ⟨.adjectiveDeriv, [.adjZero, .ness], .nounRoot⟩,
  ⟨.adjectiveDeriv, [.ly], .adverbRoot⟩,
  ⟨.adjectiveDeriv, [.become], .verbRoot⟩,
  ⟨.adverbRoot, [.advFree], .adverbTerminal⟩,
  -- Pronouns; the personal agreements are found on fixed paths only
  ⟨.pronounRoot, [.pronA3sg, .pronA3pl], .pronounWithAgreement⟩,
  ⟨.pronounWithAgreement, [.pronPnon], .pronounWithPossession⟩,
  ⟨.pronounWithPossession,
    [.pronNom, .pronAcc, .pronDat, .pronLoc, .pronAbl, .pronGen, .pronIns], .pronounWithCase⟩,
  ⟨.pronounWithCase, [.pronFree], .pronounTerminal⟩,
  ⟨.pronounWithCase, [.pronDerivFree], .pronounDeriv⟩,
  ⟨.pronounDeriv, [.pronZero], .verbCopula⟩,
  -- Verbs
  ⟨.verbRoot, [.pos, .neg], .verbWithPolarity⟩,
  ⟨.verbRoot, [.verbDerivFree], .verbPlainDeriv⟩,
  ⟨.verbPlainDeriv, [.caus, .pass, .able], .verbRoot⟩,
  ⟨.verbWithPolarity, [.prog, .fut, .past, .narr, .aor, .neces, .opt, .desr], .verbWithTense⟩,
  ⟨.verbWithPolarity, [.imp], .verbImperative⟩,
  ⟨.verbWithPolarity, [.verbPolarityDerivFree], .verbPolarityDeriv⟩,
  ⟨.verbPolarityDeriv, [.inf1, .inf2, .inf3, .pastPart, .futPart], .nounRoot⟩,
  ⟨.verbPolarityDeriv, [.presPart], .adjectiveRoot⟩,
  ⟨.verbPolarityDeriv, [.afterDoingSo, .byDoingSo], .adverbRoot⟩,
  ⟨.verbImperative, [.impA2sg, .impA3sg, .impA2pl, .impA3pl], .verbTerminal⟩,
  ⟨.verbCopula, [.pres, .pastCop, .narrCop, .condCop], .verbWithTense⟩,
  ⟨.verbWithTense, [.pastCop, .narrCop, .condCop], .verbWithTense⟩,
  ⟨.verbWithTense, [.verbA1sg, .verbA2sg, .verbA3sg, .verbA1pl, .verbA2pl, .verbA3pl],
    .verbTerminal⟩,
  -- Numerals
  ⟨.numeralRoot, [.numFree], .numeralTerminal⟩,
  ⟨.numeralRoot, [.numDerivFree, .numApos], .numeralDeriv⟩,
  ⟨.numeralDeriv, [.numZero], .nounRoot⟩]

/-- Where the roots of each part of speech begin. -/
def rootStates : List ((PrimaryPos × Option SecondaryPos) × StateName) := [
  ((.noun, none), .nounRoot),
  ((.noun, some .properNoun), .properNounRoot),
  ((.adjective, none), .adjectiveRoot),
  ((.adverb, none), .adverbRoot),
  ((.pronoun, none), .pronounRoot),
  ((.verb, none), .verbRoot),
  ((.numeral, none), .numeralRoot),
  ((.conjunction, none), .conjunctionRoot),
  ((.interjection, none), .interjectionRoot),
  ((.determiner, none), .determinerRoot),
  ((.postposition, none), .postpositionRoot),
  ((.question, none), .questionRoot),
  ((.punctuation, none), .punctuationRoot),
  ((.part, none), .partRoot)]

/-- The number of the first form of a suffix: the forms of all suffixes before it come first. -/
def SuffixName.firstForm (s : SuffixName) : Nat :=
  ((SuffixName.all.takeWhile fun t => t != s).flatMap fun t => t.entry.forms).length

def SuffixName.suffix (s : SuffixName) : Suffix :=
  let e := s.entry
  { name := e.name, printed := e.printed, group := e.group.map GroupName.id, repeats := e.repeats
    forms := (List.range e.forms.length).map fun i => ⟨s.firstForm + i⟩ }

def SuffixName.ownForms (s : SuffixName) : List Form :=
  s.entry.forms.map fun (template, guards) => { suffix := s.id, template, guards }

def Connection.exits (c : Connection) : List Exit :=
  c.suffixes.map fun s => ⟨s.id, c.target.id⟩

def StateName.exits (s : StateName) : List Exit :=
  (connections.filter fun c => c.source = s).flatMap Connection.exits

/-- The tables as they stand in a grammar. -/
def grammar : Grammar where
  states := (StateName.all.map StateName.state).toArray
  suffixes := (SuffixName.all.map SuffixName.suffix).toArray
  forms := (SuffixName.all.flatMap SuffixName.ownForms).toArray
  groups := (GroupName.all.map GroupName.name).toArray
  exits := (StateName.all.map StateName.exits).toArray
  stateIndex := (StateName.all.map fun s => (s.state.name, s.id)).reverse
  suffixIndex := (SuffixName.all.map fun s => (s.entry.name, s.id)).reverse
  groupIndex := (GroupName.all.map fun x => (x.name, x.id)).reverse
  rootStates := (rootStates.map fun (key, s) => (key, s.id)).reverse

/-- Makes the grammar, table by table. -/
def making : Making Unit := do
  StateName.all.forM fun s => discard (Making.addState s.state)
  GroupName.all.forM fun x => discard (Making.group x.name)
  SuffixName.all.forM fun s => do
    let e := s.entry
    let id ← Making.addSuffix e.name e.printed (e.group.map GroupName.id) e.repeats
    e.forms.forM fun (template, guards) => discard (Making.addForm id template.text guards)
  connections.forM fun c => c.suffixes.forM fun s =>
    Making.addEdge ⟨c.source.id, s.id, c.target.id⟩
  rootStates.forM fun ((pos, secondary), s) => Making.setRootState pos secondary s.id

def paradigm : Paradigm := .ofGrammar grammar

end TurkishMorphology.Turkish
