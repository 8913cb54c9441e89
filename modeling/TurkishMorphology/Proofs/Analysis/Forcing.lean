import TurkishMorphology.Analysis.Forcing
import TurkishMorphology.Grammar.Turkish
import TurkishMorphology.Proofs.Analysis.Step
import TurkishMorphology.Proofs.Analysis.Trace
import TurkishMorphology.Proofs.Grammar.Continuation
import Mathlib.Logic.Relation
/-!
# Steps along the grammar

An analysis goes on along an edge of the grammar with a form of its suffix, if every gate lets it
pass. The steps that rules force are such steps too, as long as the rules lie along the grammar.

## Main definitions

- `Analysis.Takes` — one step along the grammar
- `Forcing.LiesAlong` — rules whose steps lead along edges of the grammar
- `Forcing.progressive` — the rule of Turkish

## Main statements

- `Analysis.invariant_of_takes` — what every step preserves
- `Forcing.takes_of_applyTo` — forced steps are steps along the grammar
- `Forcing.apply_eq_error` — how forcing can fail
- `Forcing.turkish_eq`, `Forcing.liesAlong_turkish` — the rules of Turkish
-/

namespace TurkishMorphology

/-- The analysis takes a step along an edge of the grammar, and every gate lets it pass. -/
def Analysis.Takes (g : Grammar) (a b : Analysis) : Prop :=
  ∃ r target, (a.nextStep g r target).Follows g a.attributes ∧ a.Allows g r target ∧
    b = a.extend g r target

/-- What holds to begin with and survives every step along the grammar holds all along. -/
theorem Analysis.invariant_of_takes {g : Grammar} {a b : Analysis} {P : Analysis → Prop}
    (h : Relation.ReflTransGen (Takes g) a b) (start : P a)
    (step : ∀ c r target, P c → (c.nextStep g r target).Follows g c.attributes →
      c.Allows g r target → P (c.extend g r target)) : P b := by
  induction h with
  | refl => exact start
  | tail _ hbc ih =>
    obtain ⟨r, target, hfollows, hallows, rfl⟩ := hbc
    exact step _ r target ih hfollows hallows

theorem Analysis.root_eq_of_takes {g : Grammar} {a b : Analysis}
    (h : Relation.ReflTransGen (Takes g) a b) : b.root = a.root :=
  invariant_of_takes (P := fun c => c.root = a.root) h rfl fun _ _ _ hc _ _ => hc

theorem Analysis.rootState_eq_of_takes {g : Grammar} {a b : Analysis}
    (h : Relation.ReflTransGen (Takes g) a b) : b.rootState = a.rootState :=
  invariant_of_takes (P := fun c => c.rootState = a.rootState) h rfl fun _ _ _ hc _ _ => hc

/-- Every step that is added follows the grammar. -/
theorem Analysis.mem_or_follows_of_takes {g : Grammar} {a b : Analysis}
    (h : Relation.ReflTransGen (Takes g) a b) :
    ∀ s ∈ b.steps, s ∈ a.steps ∨ ∃ context, s.Follows g context := by
  refine invariant_of_takes (P := fun c =>
    ∀ s ∈ c.steps, s ∈ a.steps ∨ ∃ context, s.Follows g context) h (fun s hs => .inl hs) ?_
  intro c r target hc hfollows _ s hs
  rcases List.mem_append.mp hs with hs | hs
  · exact hc s hs
  · rw [List.mem_singleton.mp hs]
    exact .inr ⟨_, hfollows⟩

/-- Steps are only added. -/
theorem Analysis.steps_prefix_of_takes {g : Grammar} {a b : Analysis}
    (h : Relation.ReflTransGen (Takes g) a b) : a.steps <+: b.steps :=
  invariant_of_takes (P := fun c => a.steps <+: c.steps) h List.prefix_rfl
    fun _ _ _ hc _ _ => hc.trans (List.prefix_append ..)

theorem Analysis.IsTrace.reflTransGen {g : Grammar} {a b : Analysis} (h : a.IsTrace g)
    (hab : Relation.ReflTransGen (Takes g) a b) : b.IsTrace g :=
  invariant_of_takes hab h fun _ _ _ hc _ _ => hc.extend

namespace ForcedStep

/-- Whether forced steps lead from a state along edges of the grammar, each with a form of the
    suffix of its edge. -/
def lieAlong (g : Grammar) : StateId → List ForcedStep → Bool
  | _, [] => true
  | s, step :: rest =>
    let suffix := (g.form step.form).suffix
    g.edges.contains ⟨s, suffix, step.target⟩ && (g.suffix suffix).forms.contains step.form
      && lieAlong g step.target rest

end ForcedStep

namespace Forcing

variable {g : Grammar} {a b : Analysis}

/-- The steps of each rule lead along edges of the grammar. -/
def LiesAlong (g : Grammar) (rules : Forcing) : Prop :=
  ∀ rule ∈ rules, ForcedStep.lieAlong g rule.state rule.steps = true

theorem takeSteps_cons_eq_ok_iff {step : ForcedStep} {rest : List ForcedStep} :
    takeSteps g a (step :: rest) = .ok (some b) ↔
      ∃ c, a.takeForm g step.form step.target = .ok c ∧ takeSteps g c rest = .ok (some b) := by
  rw [takeSteps]
  cases a.takeForm g step.form step.target with
  | ok c => simp
  | error refusal => cases refusal <;> simp

theorem takeSteps_cons_of_refusal (step : ForcedStep) {rest : List ForcedStep} {refusal : Refusal}
    (h : a.takeForm g step.form step.target = .error refusal) (hne : refusal ≠ .inputDiffers) :
    takeSteps g a (step :: rest) = .error (.forcedStepRefused step.name refusal) := by
  rw [takeSteps, h]
  cases refusal with
  | inputDiffers => exact absurd rfl hne
  | _ => rfl

theorem takes_of_takeSteps {steps : List ForcedStep} (h : takeSteps g a steps = .ok (some b))
    (halong : ForcedStep.lieAlong g a.state steps = true) :
    Relation.ReflTransGen (Analysis.Takes g) a b := by
  induction steps generalizing a with
  | nil =>
    cases h
    exact .refl
  | cons step rest ih =>
    obtain ⟨c, hc, hb⟩ := takeSteps_cons_eq_ok_iff.mp h
    obtain ⟨happ, -, hallows, rfl⟩ := Analysis.takeForm_eq_ok_iff.mp hc
    simp only [ForcedStep.lieAlong, Bool.and_eq_true, List.contains_iff_mem] at halong
    obtain ⟨⟨hedge, hform⟩, hrest⟩ := halong
    have hfollows : (a.nextStep g (g.plainRealization step.form a.attributes) step.target).Follows
        g a.attributes := ⟨hedge, hform, Grammar.isSpelledIn_plainRealization happ⟩
    exact .head ⟨_, _, hfollows, hallows, rfl⟩ (ih hb hrest)

/-- Taking forced steps shows that an analysis can be reached. -/
theorem exists_takes_of_takeSteps (steps : List ForcedStep) (test : Analysis → Bool)
    (halong : ForcedStep.lieAlong g a.state steps = true)
    (h : (takeSteps g a steps).toOption.any (fun b => b.any test) = true) :
    ∃ b, Relation.ReflTransGen (Analysis.Takes g) a b ∧ test b = true := by
  obtain ⟨o, ho, htest⟩ := (Option.any_eq_true _ _).mp h
  obtain ⟨b, rfl, htest⟩ := (Option.any_eq_true _ _).mp htest
  exact ⟨b, takes_of_takeSteps (Except.toOption_eq_some_iff.mp ho) halong, htest⟩

/-- The steps forced on an analysis are steps along the grammar. -/
theorem takes_of_applyTo {rules : Forcing} (hrules : rules.LiesAlong g)
    (h : rules.applyTo g a = .ok (some b)) : Relation.ReflTransGen (Analysis.Takes g) a b := by
  unfold applyTo at h
  split at h
  · cases h
    exact .refl
  · next rule hrule =>
    have happlies := List.find?_some hrule
    have hstate : rule.state = a.state := by
      simp only [ForcedRule.applies, decide_eq_true_eq] at happlies
      exact happlies.1
    exact takes_of_takeSteps h (hstate ▸ hrules rule (List.mem_of_find?_eq_some hrule))

theorem takeSteps_eq_error {steps : List ForcedStep} {fault : AnalysisFault}
    (h : takeSteps g a steps = .error fault) :
    ∃ suffix refusal, fault = .forcedStepRefused suffix refusal := by
  induction steps generalizing a with
  | nil => cases h
  | cons step rest ih =>
    rw [takeSteps] at h
    split at h
    · exact ih h
    · cases h
    · cases h
      exact ⟨_, _, rfl⟩

/-- Forcing fails only where a forced step is refused, and for no other reason than the refusal of
    one of the analyses. -/
theorem apply_eq_error {rules : Forcing} {as : List Analysis} {fault : AnalysisFault}
    (h : rules.apply g as = .error fault) :
    (∃ suffix refusal, fault = .forcedStepRefused suffix refusal) ∧
      ∃ a ∈ as, rules.applyTo g a = .error fault := by
  rcases Except.bind_eq_error_iff.mp h with h | ⟨forced, -, h⟩
  · obtain ⟨a, ha, hfault⟩ := Except.exists_of_mapM_eq_error h
    refine ⟨?_, a, ha, hfault⟩
    unfold applyTo at hfault
    split at hfault
    · cases hfault
    · exact takeSteps_eq_error hfault
  · cases h

/-- Forcing fails as soon as it does for one of the analyses. -/
theorem exists_apply_eq_error {rules : Forcing} {as : List Analysis} {fault : AnalysisFault}
    (ha : a ∈ as) (h : rules.applyTo g a = .error fault) :
    ∃ fault', rules.apply g as = .error fault' := by
  obtain ⟨fault', hfault⟩ := Except.exists_mapM_eq_error ha h
  exact ⟨fault', Except.bind_eq_error_iff.mpr (.inl hfault)⟩

/-- The rule of Turkish: an altered root of a verb that drops its vowel goes on with the positive
    and the progressive. -/
def progressive : ForcedRule where
  state := Turkish.StateName.verbRoot.id
  condition := progressiveRule.condition
  steps := [
    ⟨⟨Turkish.SuffixName.pos.firstForm⟩, Turkish.StateName.verbWithPolarity.id, "Pos"⟩,
    ⟨⟨Turkish.SuffixName.prog.firstForm⟩, Turkish.StateName.verbWithTense.id, "Prog"⟩]

theorem turkish_eq : turkish Turkish.grammar = .ok [progressive] := by decide +kernel

theorem eq_of_turkish {rules : Forcing} (h : turkish Turkish.grammar = .ok rules) :
    rules = [progressive] :=
  Except.ok.inj (h.symm.trans turkish_eq)

theorem liesAlong_turkish {rules : Forcing} (h : turkish Turkish.grammar = .ok rules) :
    rules.LiesAlong Turkish.grammar := by
  have halong : ForcedStep.lieAlong Turkish.grammar progressive.state progressive.steps = true := by
    decide +kernel
  obtain rfl := eq_of_turkish h
  simpa [LiesAlong] using halong

end Forcing

end TurkishMorphology
