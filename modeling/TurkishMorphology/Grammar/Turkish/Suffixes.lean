import TurkishMorphology.Grammar.Turkish.Names
/-!
# The suffixes of Turkish and their forms

Nominal inflection for number, possession and case; the derivations of nouns, adjectives and
adverbs; pronouns; verbs with voice, polarity, tense and person; the copula; numerals. Each suffix
is listed with its printed name, its group and its forms, and each form with its template and with
what it asks of the analysis.

## Main definitions

- `Turkish.Entry` — what the table says of a suffix
- `Turkish.SuffixName.entry` — the table
-/

namespace TurkishMorphology.Turkish

/-- What the table says of a suffix. -/
structure Entry where
  name : String
  printed : Option String
  group : Option GroupName
  repeats : Bool
  forms : List (Template × Guards)

/-- A form without conditions. -/
def form (t : Template) : Template × Guards := (t, {})

/-- A form that asks something of the analysis it is added to. -/
def formIf (t : Template) (c : Condition) : Template × Guards := (t, { before := some c })

/-- A form that asks something of the step after it. -/
def formThen (t : Template) (c : Condition) : Template × Guards := (t, { next := some c })

/-- A suffix that adds nothing and is not printed. -/
def free (name : String) : Entry := ⟨name, none, none, false, [form (.of [])]⟩

open SuffixName

/-- A possessive of the third person was taken: cases take an extra n. -/
def afterThirdPerson : Condition := .afterAny [id .p3sg, id .p3pl]

/-- A pronoun is in the singular, as far as its suffixes say. -/
def singular : Condition := .negation (.after (id .pronA3pl))

def firstPerson : Condition :=
  .both (.rootAmong [['b', 'e', 'n'], ['b', 'i', 'z']]) singular

def secondPerson : Condition :=
  .both (.rootAmong [['s', 'e', 'n'], ['s', 'i', 'z']]) singular

def demonstrative : Condition :=
  .both (.rootAmong [['o'], ['b', 'u'], ['ş', 'u']]) singular

/-- A verb that drops its final vowel before the progressive still has that vowel, and nothing
    is spoken after it. -/
def wholeDroppingRoot : Condition :=
  .both (.both (.rootHas .progressiveVowelDrop) .rootUnaltered) .unspoken

/-- The lexeme has the attribute, and nothing was derived from it. -/
def onRoot (a : LexemeAttribute) : Condition := .both (.rootHas a) (.negation .derived)

def positive : Condition := .negation (.after (id .neg))

/-- The tenses that take the short persons. -/
def shortPerson : Condition := .afterAny [id .past, id .desr, id .pastCop, id .condCop]

/-- The tenses that take the long persons. -/
def longPerson : Condition := .negation shortPerson

def SuffixName.entry : SuffixName → Entry
  -- Nouns
  | .a3sg => ⟨"A3sg", some "A3sg", some .agreements, false, [
      formIf (.of []) (.negation (.rootHas .plural))]⟩
  | .a3pl => ⟨"A3pl", some "A3pl", some .agreements, false, [
      formIf (.of ['l', 'A', 'r']) (.negation (.rootHas .plural)),
      formIf (.of []) (.rootHas .plural)]⟩
  | .pnon => ⟨"Pnon", some "Pnon", some .possessives, false, [form (.of [])]⟩
  | .p1sg => ⟨"P1sg", some "P1sg", some .possessives, false, [form (.of ['+', 'I', 'm'])]⟩
  | .p2sg => ⟨"P2sg", some "P2sg", some .possessives, false, [form (.of ['+', 'I', 'n'])]⟩
  | .p3sg => ⟨"P3sg", some "P3sg", some .possessives, false, [form (.of ['+', 's', 'I'])]⟩
  | .p1pl => ⟨"P1pl", some "P1pl", some .possessives, false, [
      form (.of ['+', 'I', 'm', 'I', 'z'])]⟩
  | .p2pl => ⟨"P2pl", some "P2pl", some .possessives, false, [
      form (.of ['+', 'I', 'n', 'I', 'z'])]⟩
  | .p3pl => ⟨"P3pl", some "P3pl", some .possessives, false, [
      formIf (.of ['l', 'A', 'r', 'I']) (.negation (.after (id .a3pl))),
      formIf (.of ['I']) (.after (id .a3pl))]⟩
  | .nom => ⟨"Nom", some "Nom", some .cases, false, [form (.of [])]⟩
  | .acc => ⟨"Acc", some "Acc", some .cases, false, [
      formIf (.of ['+', 'y', 'I']) (.negation afterThirdPerson),
      formIf (.of ['n', 'I']) afterThirdPerson]⟩
  | .dat => ⟨"Dat", some "Dat", some .cases, false, [
      formIf (.of ['+', 'y', 'A']) (.negation afterThirdPerson),
      formIf (.of ['n', 'A']) afterThirdPerson]⟩
  | .loc => ⟨"Loc", some "Loc", some .cases, false, [
      formIf (.of ['d', 'A']) (.negation afterThirdPerson),
      formIf (.of ['n', 'd', 'A']) afterThirdPerson]⟩
  | .abl => ⟨"Abl", some "Abl", some .cases, false, [
      formIf (.of ['d', 'A', 'n']) (.negation afterThirdPerson),
      formIf (.of ['n', 'd', 'A', 'n']) afterThirdPerson]⟩
  | .gen => ⟨"Gen", some "Gen", some .cases, false, [form (.of ['+', 'n', 'I', 'n'])]⟩
  | .ins => ⟨"Ins", some "Ins", some .cases, false, [form (.of ['+', 'y', 'l', 'A'])]⟩
  | .equ => ⟨"Equ", some "Equ", some .cases, false, [
      formIf (.of ['c', 'A']) (.negation afterThirdPerson),
      formIf (.of ['n', 'c', 'A']) afterThirdPerson]⟩
  | .nomDeriv => ⟨"Nom_Deriv", some "Nom", some .cases, false, [
      formIf (.of []) (.after (id .pnon))]⟩
  | .having => ⟨"With", some "With", none, false, [form (.of ['l', 'I'])]⟩
  | .lacking => ⟨"Without", some "Without", none, false, [form (.of ['s', 'I', 'z'])]⟩
  | .ness => ⟨"Ness", some "Ness", none, false, [form (.of ['l', 'I', 'k'])]⟩
  | .agt => ⟨"Agt", some "Agt", none, false, [form (.of ['c', 'I'])]⟩
  | .dim => ⟨"Dim", some "Dim", none, false, [form (.of ['c', 'I', 'k'])]⟩
  | .become => ⟨"Become", some "Become", none, false, [form (.of ['l', 'A', 'ş'])]⟩
  | .acquire => ⟨"Acquire", some "Acquire", none, false, [form (.of ['l', 'A', 'n'])]⟩
  | .nounFree => free "Noun_Free"
  | .nounCopulaFree => free "Noun_Copula_Free"
  | .nounZero => ⟨"Noun_Zero", some "Zero", none, false, [form (.of [])]⟩
  | .rel => ⟨"Rel", some "Rel", none, false, [formIf (.of ['k', 'i']) (.after (id .loc))]⟩
  -- Proper nouns, adjectives and adverbs
  | .propApos => ⟨"Prop_Apos", some "Apos", none, false, [form (.of ['\''])]⟩
  | .propFree => free "Prop_Free"
  | .adjFree => free "Adj_Free"
  | .adjDerivFree => free "Adj_Deriv_Free"
  | .adjZero => ⟨"Adj_Zero", some "Zero", none, false, [form (.of [])]⟩
  | .ly => ⟨"Ly", some "Ly", none, false, [form (.of ['c', 'A'])]⟩
  | .advFree => free "Adv_Free"
  -- Pronouns
  | .pronA1sg => ⟨"Pron_A1sg", some "A1sg", some .agreements, false, [form (.of [])]⟩
  | .pronA2sg => ⟨"Pron_A2sg", some "A2sg", some .agreements, false, [form (.of [])]⟩
  | .pronA1pl => ⟨"Pron_A1pl", some "A1pl", some .agreements, false, [form (.of [])]⟩
  | .pronA2pl => ⟨"Pron_A2pl", some "A2pl", some .agreements, false, [form (.of [])]⟩
  | .pronA3sg => ⟨"Pron_A3sg", some "A3sg", some .agreements, false, [form (.of [])]⟩
  | .pronA3pl => ⟨"Pron_A3pl", some "A3pl", some .agreements, false, [form (.of ['l', 'A', 'r'])]⟩
  | .pronPnon => ⟨"Pron_Pnon", some "Pnon", some .possessives, false, [form (.of [])]⟩
  | .pronNom => ⟨"Pron_Nom", some "Nom", some .cases, false, [form (.of [])]⟩
  | .pronAcc => ⟨"Pron_Acc", some "Acc", some .cases, false, [form (.of ['+', 'y', 'I'])]⟩
  | .pronDat => ⟨"Pron_Dat", some "Dat", some .cases, false, [form (.of ['+', 'y', 'A'])]⟩
  | .pronLoc => ⟨"Pron_Loc", some "Loc", some .cases, false, [form (.of ['d', 'A'])]⟩
  | .pronAbl => ⟨"Pron_Abl", some "Abl", some .cases, false, [form (.of ['d', 'A', 'n'])]⟩
  | .pronGen => ⟨"Pron_Gen", some "Gen", some .cases, false, [
      formIf (.of ['+', 'n', 'I', 'n']) (.negation firstPerson),
      formIf (.of ['i', 'm']) firstPerson]⟩
  | .pronIns => ⟨"Pron_Ins", some "Ins", some .cases, false, [
      formIf (.of ['+', 'y', 'l', 'A'])
        (.negation (.either (.either firstPerson secondPerson) demonstrative)),
      formIf (.of ['i', 'm', 'l', 'e']) firstPerson,
      formIf (.of ['i', 'n', 'l', 'e']) secondPerson,
      formIf (.of ['u', 'n', 'l', 'a']) demonstrative]⟩
  | .pronFree => free "Pron_Free"
  | .pronDerivFree => free "Pron_Deriv_Free"
  | .pronZero => ⟨"Pron_Zero", some "Zero", none, false, [form (.of [])]⟩
  -- Verbs: polarity and voice
  | .prog => ⟨"Prog", some "Prog", some .tenses, false, [
      formIf (.of ['+', 'I', 'y', 'o', 'r']) (.negation wholeDroppingRoot)]⟩
  | .pos => ⟨"Pos", some "Pos", some .polarities, false, [form (.of [])]⟩
  | .neg => ⟨"Neg", some "Neg", some .polarities, false, [
      formThen (.of ['m', 'A']) (.negation (.followedBy (id .prog))),
      formThen (.of ['m']) (.followedBy (id .prog))]⟩
  | .caus => ⟨"Caus", some "Caus", none, true, [
      formIf (.of ['t']) (.either (onRoot .causativeT) (.afterDerivation (id .caus))),
      formIf (.of ['I', 'r']) (onRoot .causativeIr),
      formIf (.of ['I', 't']) (onRoot .causativeIt),
      formIf (.of ['A', 'r']) (onRoot .causativeAr),
      formIf (.of ['d', 'I', 'r']) (onRoot .causativeDir)]⟩
  | .pass => ⟨"Pass", some "Pass", none, false, [
      formIf (.of ['+', 'I', 'n']) (onRoot .passiveIn),
      formIf (.of ['I', 'l']) (.either (onRoot .passiveIl) (.afterDerivation (id .caus))),
      formIf (.of ['I', 'n', 'I', 'l']) (onRoot .passiveInIl)]⟩
  | .able => ⟨"Able", some "Able", none, false, [form (.of ['+', 'y', 'A', 'b', 'i', 'l'])]⟩
  | .verbDerivFree => free "Verb_Deriv_Free"
  -- Verbs: tense
  | .fut => ⟨"Fut", some "Fut", some .tenses, false, [form (.of ['+', 'y', 'A', 'c', 'A', 'k'])]⟩
  | .past => ⟨"Past", some "Past", some .tenses, false, [form (.of ['d', 'I'])]⟩
  | .narr => ⟨"Narr", some "Narr", some .tenses, false, [form (.of ['m', 'I', 'ş'])]⟩
  | .aor => ⟨"Aor", some "Aor", some .tenses, false, [
      formIf (.of ['+', 'I', 'r']) (.both (.either (.lexemeHas .aoristI) .derived) positive),
      formIf (.of ['+', 'A', 'r'])
        (.both (.both (.lexemeHas .aoristA) (.negation .derived)) positive),
      formIf (.of ['z']) (.after (id .neg))]⟩
  | .neces => ⟨"Neces", some "Neces", some .tenses, false, [form (.of ['m', 'A', 'l', 'I'])]⟩
  | .opt => ⟨"Opt", some "Opt", some .tenses, false, [form (.of ['+', 'y', 'A'])]⟩
  | .desr => ⟨"Desr", some "Desr", some .tenses, false, [form (.of ['s', 'A'])]⟩
  | .imp => ⟨"Imp", some "Imp", some .tenses, false, [form (.of [])]⟩
  -- Verbs: words made from verbs
  | .verbPolarityDerivFree => free "Verb_Polarity_Deriv_Free"
  | .inf1 => ⟨"Inf1", some "Inf", none, false, [form (.of ['m', 'A', 'k'])]⟩
  | .inf2 => ⟨"Inf2", some "Inf", none, false, [form (.of ['m', 'A'])]⟩
  | .inf3 => ⟨"Inf3", some "Inf", none, false, [form (.of ['+', 'y', 'I', 'ş'])]⟩
  | .pastPart => ⟨"PastPart", some "PastPart", none, false, [form (.of ['d', 'I', 'k'])]⟩
  | .futPart => ⟨"FutPart", some "FutPart", none, false, [
      form (.of ['+', 'y', 'A', 'c', 'A', 'k'])]⟩
  | .presPart => ⟨"PresPart", some "PresPart", none, false, [form (.of ['+', 'y', 'A', 'n'])]⟩
  | .afterDoingSo => ⟨"AfterDoingSo", some "AfterDoingSo", none, false, [
      form (.of ['+', 'y', 'I', 'p'])]⟩
  | .byDoingSo => ⟨"ByDoingSo", some "ByDoingSo", none, false, [
      form (.of ['+', 'y', 'A', 'r', 'A', 'k'])]⟩
  -- Verbs: persons of the imperative, and the copula
  | .impA2sg => ⟨"Imp_A2sg", some "A2sg", some .agreements, false, [form (.of [])]⟩
  | .impA3sg => ⟨"Imp_A3sg", some "A3sg", some .agreements, false, [form (.of ['s', 'I', 'n'])]⟩
  | .impA2pl => ⟨"Imp_A2pl", some "A2pl", some .agreements, false, [
      form (.of ['+', 'y', 'I', 'n']),
      form (.of ['+', 'y', 'I', 'n', 'I', 'z'])]⟩
  | .impA3pl => ⟨"Imp_A3pl", some "A3pl", some .agreements, false, [
      form (.of ['s', 'I', 'n', 'l', 'A', 'r'])]⟩
  | .pres => ⟨"Pres", some "Pres", some .copulaTenses, false, [form (.of [])]⟩
  | .pastCop => ⟨"Past_Cop", some "Past", some .copulaTenses, false, [
      form (.of ['+', 'y', 'd', 'I'])]⟩
  | .narrCop => ⟨"Narr_Cop", some "Narr", some .copulaTenses, false, [
      form (.of ['+', 'y', 'm', 'I', 'ş'])]⟩
  | .condCop => ⟨"Cond_Cop", some "Cond", some .copulaTenses, false, [
      form (.of ['+', 'y', 's', 'A'])]⟩
  -- Verbs: persons
  | .verbA1sg => ⟨"Verb_A1sg", some "A1sg", some .agreements, false, [
      formIf (.of ['+', 'y', 'I', 'm']) longPerson,
      formIf (.of ['m']) shortPerson]⟩
  | .verbA2sg => ⟨"Verb_A2sg", some "A2sg", some .agreements, false, [
      formIf (.of ['s', 'I', 'n']) longPerson,
      formIf (.of ['n']) shortPerson]⟩
  | .verbA3sg => ⟨"Verb_A3sg", some "A3sg", some .agreements, false, [
      formIf (.of []) (.negation (.after (id .pres))),
      formIf (.of ['d', 'I', 'r']) longPerson]⟩
  | .verbA1pl => ⟨"Verb_A1pl", some "A1pl", some .agreements, false, [
      formIf (.of ['+', 'y', 'I', 'z']) (.both longPerson (.negation (.after (id .opt)))),
      formIf (.of ['k']) shortPerson,
      formIf (.of ['l', 'I', 'm']) (.after (id .opt))]⟩
  | .verbA2pl => ⟨"Verb_A2pl", some "A2pl", some .agreements, false, [
      formIf (.of ['s', 'I', 'n', 'I', 'z']) longPerson,
      formIf (.of ['n', 'I', 'z']) shortPerson]⟩
  | .verbA3pl => ⟨"Verb_A3pl", some "A3pl", some .agreements, false, [form (.of ['l', 'A', 'r'])]⟩
  -- Numerals
  | .numFree => free "Num_Free"
  | .numDerivFree => free "Num_Deriv_Free"
  | .numApos => ⟨"Num_Apos", some "Apos", none, false, [form (.of ['\''])]⟩
  | .numZero => ⟨"Num_Zero", some "Zero", none, false, [form (.of [])]⟩

end TurkishMorphology.Turkish
