import TurkishMorphology.Analysis.Error
/-!
# Forced steps

Some analyses can go on in one way only, whatever the input says. A rule names the state and the
condition in which it applies and the steps that must follow. The first rule that applies to an
analysis is the one that counts. An analysis whose forced steps do not fit the input is dropped; a
refusal for any other reason is an error.

## Main definitions

- `ForcedRule` — a rule over the parts of a grammar
- `ForcedRule.Draft`, `ForcedRule.resolve` — a rule by names, and its resolution in a grammar
- `Forcing`, `Forcing.apply` — rules, and analyses after their forced steps
- `Forcing.turkish` — the rules of Turkish
-/

namespace TurkishMorphology

structure ForcedStep where
  form : FormId
  target : StateId
  /-- The name of the suffix, for error messages. -/
  name : String
deriving DecidableEq, Inhabited

/-- What must follow an analysis in a state that satisfies a condition. -/
structure ForcedRule where
  state : StateId
  condition : Condition
  steps : List ForcedStep
deriving DecidableEq, Inhabited

/-- Rules, the first that applies to an analysis counting. -/
abbrev Forcing := List ForcedRule

namespace ForcedRule

/-- A forced step by names. -/
structure DraftStep where
  suffix : String
  template : Word
  target : String

/-- A rule by names. -/
structure Draft where
  state : String
  condition : Condition
  steps : List DraftStep

def resolveStep (g : Grammar) (d : DraftStep) : Except GrammarError ForcedStep := do
  let suffix ← g.suffixId d.suffix
  let form ← g.findForm suffix d.template
  let target ← g.stateId d.target
  return ⟨form, target, d.suffix⟩

def resolve (g : Grammar) (d : Draft) : Except GrammarError ForcedRule := do
  let steps ← d.steps.mapM (resolveStep g)
  let state ← g.stateId d.state
  return ⟨state, d.condition, steps⟩

def applies (r : ForcedRule) (a : Analysis) : Bool := r.state = a.state ∧ r.condition.holds a

end ForcedRule

namespace Forcing

/-- Takes forced steps; no analysis is left if one of them does not fit the input. -/
def takeSteps (g : Grammar) (a : Analysis) :
    List ForcedStep → Except AnalysisFault (Option Analysis)
  | [] => .ok (some a)
  | step :: rest =>
    match a.takeForm g step.form step.target with
    | .ok next => takeSteps g next rest
    | .error .inputDiffers => .ok none
    | .error refusal => .error (.forcedStepRefused step.name refusal)

/-- An analysis after the steps forced on it, if they fit the input. -/
def applyTo (g : Grammar) (rules : Forcing) (a : Analysis) :
    Except AnalysisFault (Option Analysis) :=
  match rules.find? fun r => r.applies a with
  | none => .ok (some a)
  | some r => takeSteps g a r.steps

def apply (g : Grammar) (rules : Forcing) (as : List Analysis) :
    Except AnalysisFault (List Analysis) := do
  let forced ← as.mapM (rules.applyTo g)
  return forced.filterMap id

def resolve (g : Grammar) (drafts : List ForcedRule.Draft) : Except GrammarError Forcing :=
  drafts.mapM (ForcedRule.resolve g)

/-- A verb that lost its final vowel before the progressive goes on with the progressive. -/
def progressiveRule : ForcedRule.Draft where
  state := "VERB_ROOT"
  condition := .both (.both (.rootHas .progressiveVowelDrop) (.negation .rootUnaltered)) .fresh
  steps := [
    ⟨"Pos", [], "VERB_WITH_POLARITY"⟩,
    ⟨"Prog", ['+', 'I', 'y', 'o', 'r'], "VERB_WITH_TENSE"⟩]

/-- The rules of Turkish, in a grammar that has the parts they name. -/
def turkish (g : Grammar) : Except GrammarError Forcing := resolve g [progressiveRule]

end Forcing

end TurkishMorphology
