import TurkishMorphology.Analysis.Gate
import TurkishMorphology.Proofs.Result
/-!
# Taking a step

An analysis takes a step exactly when every gate lets it pass, and then the step is the extension
that no gate judges. Later modules use this description and never look into the gates.

## Main statements

- `Analysis.Allows` — every gate lets a realization pass
- `Analysis.takeContinuation_eq_ok_iff` — taking a continuation of the paradigm
- `Analysis.takeForm_eq_ok_iff` — taking a form that is resolved on the way
- `Analysis.takeForm_eq` — the three gates that are left where nothing else is against a form
-/

namespace TurkishMorphology

theorem Refusal.unless_eq_ok_iff {met : Bool} {r : Refusal} :
    Refusal.unless met r = .ok () ↔ met = true := by
  cases met <;> simp [Refusal.unless]

/-- The realization of a form without voicing, in a phonetic context. -/
def Grammar.plainRealization (g : Grammar) (id : FormId) (a : PhoneticAttributes) : Realization :=
  let text := (g.form id).template.resolve a
  { form := id, suffix := (g.form id).suffix, text, plain := text }

namespace Analysis

/-- Every gate lets an analysis go on with a realization to a state. -/
structure Allows (g : Grammar) (a : Analysis) (r : Realization) (target : StateId)
    (reading : Condition.Reading := Condition.holds) : Prop where
  groupFree : a.hasTakenGroup (g.suffix r.suffix) = false
  notRepeated : (g.suffix r.suffix).repeats = true ∨ a.hasTaken r.suffix = false
  before : Condition.holdsIfAny (g.form r.form).guards.before a reading = true
  expected : a.meetsExpectations (r.text.head?.map Alphabet.isVowel).toList = true
  follows : a.mayFollow r.text = true
  input : r.text <+: a.remaining
  next : ∀ t, a.lastStep? = some t →
    Condition.holdsIfAny (g.form t.realization.form).guards.next (a.extend g r target) reading
      = true
  leaving : (g.state a.state).isDerivational = true → ∀ t ∈ a.fromDerivation,
    Condition.holdsIfAny (g.form t.realization.form).guards.leaving (a.extend g r target) reading
      = true

variable {g : Grammar} {a b : Analysis} {r : Realization} {target : StateId}
  {reading : Condition.Reading}

theorem checkHistory_eq_ok_iff {id : SuffixId} {f : Form} :
    a.checkHistory g id f reading = .ok () ↔
      a.hasTakenGroup (g.suffix id) = false ∧
      ((g.suffix id).repeats = true ∨ a.hasTaken id = false) ∧
      Condition.holdsIfAny f.guards.before a reading = true := by
  simp [checkHistory, Except.check_bind_eq_ok_iff, Refusal.unless_eq_ok_iff]

theorem checkFollowers_eq_ok_iff {next : Analysis} :
    checkFollowers g a next reading = .ok () ↔
      (∀ t, a.lastStep? = some t →
        Condition.holdsIfAny (g.form t.realization.form).guards.next next reading = true) ∧
      ((g.state a.state).isDerivational = true → ∀ t ∈ a.fromDerivation,
        Condition.holdsIfAny (g.form t.realization.form).guards.leaving next reading = true) := by
  simp only [checkFollowers, Except.check_bind_eq_ok_iff, Refusal.unless_eq_ok_iff]
  cases a.lastStep? <;> cases (g.state a.state).isDerivational <;> simp

theorem finish_eq_ok_iff :
    finish g a r target reading = .ok b ↔
      r.text <+: a.remaining ∧ checkFollowers g a (a.extend g r target) reading = .ok () ∧
      b = a.extend g r target := by
  simp only [finish, Except.check_bind_eq_ok_iff, Refusal.unless_eq_ok_iff,
    List.isPrefixOf_iff_prefix, pure, Except.pure, Except.ok.injEq]
  exact and_congr_right fun _ => and_congr_right fun _ => eq_comm

/-- A continuation is taken if every gate lets it pass. -/
theorem takeContinuation_eq_ok_iff {c : Continuation} :
    a.takeContinuation g c reading = .ok b ↔
      a.Allows g c.realization c.target reading ∧ b = a.extend g c.realization c.target := by
  simp only [takeContinuation, Except.check_bind_eq_ok_iff, Refusal.unless_eq_ok_iff,
    checkHistory_eq_ok_iff, finish_eq_ok_iff, checkFollowers_eq_ok_iff]
  constructor
  · rintro ⟨⟨hg, hr, hb⟩, he, hf, hi, ⟨hn, hl⟩, rfl⟩
    exact ⟨⟨hg, hr, hb, he, hf, hi, hn, hl⟩, rfl⟩
  · rintro ⟨⟨hg, hr, hb, he, hf, hi, hn, hl⟩, rfl⟩
    exact ⟨⟨hg, hr, hb⟩, he, hf, hi, ⟨hn, hl⟩, rfl⟩

/-- Where a form resolves to letters, the first of them is what the expectations are about. -/
theorem meetsExpectations_of_startsOf {t : Template} {text : Word}
    (h : a.meetsExpectations (startsOf t (some text)) = true) :
    a.meetsExpectations (text.head?.map Alphabet.isVowel).toList = true := by
  cases text with
  | nil => rfl
  | cons c cs => exact h

/-- A form is taken if it resolves in the context and every gate lets its plain realization pass;
    a form that resolves to nothing is judged by the ways in which its template can start. -/
theorem takeForm_eq_ok_iff {id : FormId} :
    a.takeForm g id target reading = .ok b ↔
      (g.form id).template.isApplicable a.attributes = true ∧
      a.meetsExpectations (startsOf (g.form id).template
        (some ((g.form id).template.resolve a.attributes))) = true ∧
      a.Allows g (g.plainRealization id a.attributes) target reading ∧
      b = a.extend g (g.plainRealization id a.attributes) target := by
  simp only [takeForm, Except.check_bind_eq_ok_iff, Refusal.unless_eq_ok_iff,
    checkHistory_eq_ok_iff]
  by_cases happ : (g.form id).template.isApplicable a.attributes = true
  · simp only [happ, if_true, true_and, Except.check_bind_eq_ok_iff, Refusal.unless_eq_ok_iff,
      finish_eq_ok_iff, checkFollowers_eq_ok_iff]
    constructor
    · rintro ⟨⟨hg, hr, hb⟩, he, hf, hi, ⟨hn, hl⟩, rfl⟩
      exact ⟨he, ⟨hg, hr, hb, meetsExpectations_of_startsOf he, hf, hi, hn, hl⟩, rfl⟩
    · rintro ⟨he, ⟨hg, hr, hb, -, hf, hi, hn, hl⟩, rfl⟩
      exact ⟨⟨hg, hr, hb⟩, he, hf, hi, ⟨hn, hl⟩, rfl⟩
  · simp [happ, throw, throwThe, MonadExceptOf.throw]

/-- A form that resolves, with nothing against it in what was taken before or in what follows, is
    judged by its first letter, by the stop before it and by the input. -/
theorem takeForm_eq {id : FormId}
    (hhistory : a.checkHistory g (g.form id).suffix (g.form id) = .ok ())
    (happ : (g.form id).template.isApplicable a.attributes = true)
    (hfollowers : checkFollowers g a (a.extend g (g.plainRealization id a.attributes) target)
      = .ok ()) :
    a.takeForm g id target =
      let text := (g.form id).template.resolve a.attributes
      if !a.meetsExpectations (startsOf (g.form id).template (some text)) then
        .error .expectationUnmet
      else if !a.mayFollow text then .error .stopUnvoiced
      else if !text.isPrefixOf a.remaining then .error .inputDiffers
      else .ok (a.extend g (g.plainRealization id a.attributes) target) := by
  simp only [takeForm, hhistory, happ, if_true, finish, Grammar.plainRealization] at hfollowers ⊢
  cases a.meetsExpectations (startsOf (g.form id).template
    (some ((g.form id).template.resolve a.attributes))) with
  | false => rfl
  | true =>
    cases a.mayFollow ((g.form id).template.resolve a.attributes) with
    | false => rfl
    | true =>
      cases ((g.form id).template.resolve a.attributes).isPrefixOf a.remaining with
      | false => rfl
      | true =>
        simp only [Refusal.unless, if_true, bind, Except.bind, hfollowers, Bool.not_true,
          Bool.false_eq_true, if_false]
        rfl

end Analysis

end TurkishMorphology
