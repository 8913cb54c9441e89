import TurkishMorphology.Analysis.Basic
/-!
# Which steps an analysis may take

A step is judged by gates in a fixed order, and the first gate that fails is the reason for its
refusal. First comes what the analysis has taken before: groups, repetition, and the condition
before the form; then the sound of the step: expectations, and stops that would be voiced; then the
input; and last the conditions of earlier forms that look at the step.

## Main definitions

- `Refusal`, `Refusal.message` — why a step is refused
- `Condition.Reading` — which analyses satisfy which conditions
- `Analysis.takeContinuation` — takes a continuation of the paradigm
- `Analysis.takeForm` — takes a form, resolved in the context of the analysis

## Design notes

Both ways of taking a step share the gates. They differ in that a continuation is spelled out
beforehand, while a form may turn out not to resolve in its context at all.

No gate looks into a condition: each asks a reading whether the condition holds. The reading is
`Condition.holds` unless another one is given.
-/

namespace TurkishMorphology

inductive Refusal where
  /-- A suffix of the same group was taken since the last derivation. -/
  | groupTaken
  /-- The suffix was taken before and may not be taken again. -/
  | repeated
  /-- The condition before the form does not hold. -/
  | conditionBefore
  /-- The form starts with the wrong kind of letter. -/
  | expectationUnmet
  /-- The form cannot be resolved in the context. -/
  | unresolvable
  /-- A voiceless stop would have to be voiced before the vowel of the form. -/
  | stopUnvoiced
  /-- The input does not go on with the form. -/
  | inputDiffers
  /-- The condition that the last form puts on the step after it does not hold. -/
  | conditionNext
  /-- A condition on leaving the derivation does not hold. -/
  | conditionLeaving
deriving DecidableEq, Repr

def Refusal.message : Refusal → String
  | .groupTaken => "suffix group already used since the last derivation"
  | .repeated => "suffix already used and not repeatable"
  | .conditionBefore => "precondition not satisfied"
  | .expectationUnmet => "phonetic expectation not met"
  | .unresolvable => "form does not resolve in this phonetic context"
  | .stopUnvoiced => "last consonant must voice before this form"
  | .inputDiffers => "form does not match the input"
  | .conditionNext => "postcondition of the previous form not satisfied"
  | .conditionLeaving => "post-derivative condition not satisfied"

/-- A refusal if the requirement is not met. -/
def Refusal.unless (met : Bool) (r : Refusal) : Except Refusal Unit :=
  if met then .ok () else .error r

/-- A way to read conditions: which analyses satisfy each of them. -/
abbrev Condition.Reading := Analysis → Condition → Bool

def Condition.holdsIfAny (c : Option Condition) (a : Analysis)
    (reading : Reading := Condition.holds) : Bool :=
  c.all fun c => reading a c

namespace Analysis

/-- Whether a suffix of the group was taken since the last derivation. -/
def hasTakenGroup (a : Analysis) (s : Suffix) : Bool := s.group.any a.groups.contains

/-- Whether the suffix was taken since the last derivation, or made it. -/
def hasTaken (a : Analysis) (id : SuffixId) : Bool :=
  a.recentSuffixes.contains id || a.lastDerivation.any fun t => t.realization.suffix = id

/-- The gates on what was taken before. -/
def checkHistory (g : Grammar) (a : Analysis) (id : SuffixId) (f : Form)
    (reading : Condition.Reading := Condition.holds) : Except Refusal Unit := do
  let s := g.suffix id
  Refusal.unless (!a.hasTakenGroup s) .groupTaken
  Refusal.unless (s.repeats || !a.hasTaken id) .repeated
  Refusal.unless (Condition.holdsIfAny f.guards.before a reading) .conditionBefore

/-- Whether the surface ends in a voiceless stop that a vowel after it would voice. -/
def mustVoice (a : Analysis) : Bool :=
  (a.surface.getLast?.any fun c => (Alphabet.letter c).isVoicelessStop)
    && !a.lexemeAttributes.contains .noVoicing

/-- Whether some way to start meets the expectations. A step that cannot start meets them. -/
def meetsExpectations (a : Analysis) (starts : List Bool) : Bool :=
  starts.isEmpty || a.expectations.areMetBy starts

/-- Whether a text may follow the last letter of the surface. -/
def mayFollow (a : Analysis) (text : Word) : Bool :=
  !(text.head?.any Alphabet.isVowel && a.mustVoice)

/-- The gates that look at the step taken: conditions of the last form, and of the forms of a
    derivation that the step leaves. -/
def checkFollowers (g : Grammar) (previous next : Analysis)
    (reading : Condition.Reading := Condition.holds) : Except Refusal Unit := do
  let holds (c : Option Condition) : Bool := Condition.holdsIfAny c next reading
  Refusal.unless
    (previous.lastStep?.all fun t => holds (g.form t.realization.form).guards.next) .conditionNext
  Refusal.unless
    (!(g.state previous.state).isDerivational
      || previous.fromDerivation.all fun t => holds (g.form t.realization.form).guards.leaving)
    .conditionLeaving

/-- The step itself, with the gates on the input and on what follows. -/
def finish (g : Grammar) (a : Analysis) (r : Realization) (target : StateId)
    (reading : Condition.Reading := Condition.holds) : Except Refusal Analysis := do
  Refusal.unless (r.text.isPrefixOf a.remaining) .inputDiffers
  let next := a.extend g r target
  checkFollowers g a next reading
  return next

/-- Takes a continuation of the paradigm. -/
def takeContinuation (g : Grammar) (a : Analysis) (c : Continuation)
    (reading : Condition.Reading := Condition.holds) : Except Refusal Analysis := do
  let r := c.realization
  checkHistory g a r.suffix (g.form r.form) reading
  Refusal.unless (a.meetsExpectations (r.text.head?.map Alphabet.isVowel).toList) .expectationUnmet
  Refusal.unless (a.mayFollow r.text) .stopUnvoiced
  finish g a r c.target reading

/-- How a form can start: with the first letter it resolves to, or, where it resolves to none, in
    any way its template allows. -/
def startsOf (t : Template) (resolved : Option Word) : List Bool :=
  match resolved.bind List.head? with
  | some c => [Alphabet.isVowel c]
  | none => t.starts

/-- Takes a form, resolved in the context of the analysis. -/
def takeForm (g : Grammar) (a : Analysis) (id : FormId) (target : StateId)
    (reading : Condition.Reading := Condition.holds) : Except Refusal Analysis := do
  let f := g.form id
  checkHistory g a f.suffix f reading
  let t := f.template
  let resolved := if t.isApplicable a.attributes then some (t.resolve a.attributes) else none
  Refusal.unless (a.meetsExpectations (startsOf t resolved)) .expectationUnmet
  let some text := resolved | throw .unresolvable
  Refusal.unless (a.mayFollow text) .stopUnvoiced
  finish g a { form := id, suffix := f.suffix, text, plain := text } target reading

end Analysis

end TurkishMorphology
