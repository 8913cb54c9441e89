import TurkishMorphology.Proofs.Analysis.Position
import Mathlib.Data.List.DropRight
import Mathlib.Data.List.Induction
/-!
# Analyses computed anew

An analysis is extended in place, one step after the other, and what it keeps is updated with each
step. Whatever realizations are added and wherever they lead, each part of it is what one computes
from the root and from all of the steps at once.

## Main definitions

- `Analysis.extendAll` — the analysis after any realizations and targets, judged by no gate
- `Step.chain` — the steps that realizations and targets make
- `Step.afterLast`, `Step.fromLast` — the steps after the last one with a property, and with it
- `Analysis.IsComputed` — every part of an analysis is what its root and its steps make it

## Main statements

- `Analysis.IsComputed.extend` — one step more is computed as if from the beginning
- `Analysis.isComputed_extendAll` — so is every analysis that is extended from its root
- `Analysis.IsTrace.sinceDerivation_eq` — the steps since the last derivation, in a trace
-/

namespace TurkishMorphology

namespace Step

/-- The steps from a state on that take the given realizations to the given states. -/
def chain (g : Grammar) : StateId → List (Realization × StateId) → List Step
  | _, [] => []
  | source, m :: rest => ⟨source, m.1, m.2, (g.state source).isDerivational⟩ :: chain g m.2 rest

/-- Where the moves lead from a state. -/
def chainEnd (source : StateId) (moves : List (Realization × StateId)) : StateId :=
  (moves.getLast?.map Prod.snd).getD source

/-- The steps after the last one with a property, or all of them if none has it. -/
def afterLast (p : Step → Bool) (steps : List Step) : List Step := steps.rtakeWhile fun s => !p s

/-- The last step with a property and the steps after it, or all of them if none has it. -/
def fromLast (p : Step → Bool) (steps : List Step) : List Step :=
  (steps.reverse.find? p).toList ++ afterLast p steps

/-- What is expected after steps from a root. The root is heard until something visible is added;
    then it is the last visible step and those after it. -/
def awaited (root : Root) (steps : List Step) : PhoneticExpectations :=
  if steps.all isBlank then root.expectations ∪ .ofList (steps.filterMap (·.realization.awaits))
  else .ofList ((fromLast (fun s => !s.isBlank) steps).filterMap (·.realization.awaits))

variable {g : Grammar} {source : StateId} {moves : List (Realization × StateId)}
  {p : Step → Bool} {steps : List Step} {s : Step}

theorem chainEnd_cons (source : StateId) (m : Realization × StateId)
    (moves : List (Realization × StateId)) :
    chainEnd source (m :: moves) = chainEnd m.2 moves := by
  cases moves with
  | nil => rfl
  | cons n rest => simp [chainEnd, List.getLast?_cons]

@[simp]
theorem chainEnd_concat (source : StateId) (moves : List (Realization × StateId))
    (m : Realization × StateId) : chainEnd source (moves ++ [m]) = m.2 := by
  simp [chainEnd]

theorem chain_concat (source : StateId) (moves : List (Realization × StateId))
    (m : Realization × StateId) :
    chain g source (moves ++ [m]) = chain g source moves ++
      [⟨chainEnd source moves, m.1, m.2, (g.state (chainEnd source moves)).isDerivational⟩] := by
  induction moves generalizing source with
  | nil => rfl
  | cons n rest ih =>
    rw [List.cons_append, chain, chain, List.cons_append, ih, chainEnd_cons]

theorem afterLast_concat :
    afterLast p (steps ++ [s]) = if p s then [] else afterLast p steps ++ [s] := by
  rw [afterLast, List.rtakeWhile_concat]
  cases p s <;> rfl

theorem find?_reverse_concat :
    (steps ++ [s]).reverse.find? p = if p s then some s else steps.reverse.find? p := by
  rw [List.reverse_append, List.reverse_singleton, List.singleton_append, List.find?_cons]
  cases p s <;> rfl

theorem fromLast_concat :
    fromLast p (steps ++ [s]) = if p s then [s] else fromLast p steps ++ [s] := by
  rw [fromLast, find?_reverse_concat, afterLast_concat]
  cases p s with
  | true => rfl
  | false => exact (List.append_assoc ..).symm

end Step

namespace Analysis

variable {g : Grammar} {a : Analysis} {r : Realization} {target : StateId}

theorem expectationsAfter_of_isBlank (kept : PhoneticExpectations)
    (es : List PhoneticExpectation) (h : r.isBlank = true) :
    expectationsAfter (kept ∪ .ofList es) r = kept ∪ .ofList (es ++ r.awaits.toList) := by
  rw [expectationsAfter, if_pos h]
  cases r.awaits with
  | none => rw [Option.toList_none, List.append_nil]
  | some e => rw [Option.toList_some, FlagSet.ofList_concat, FlagSet.union_insert]

theorem expectationsAfter_of_not_isBlank (previous : PhoneticExpectations)
    (h : r.isBlank = false) : expectationsAfter previous r = .ofList r.awaits.toList := by
  rw [expectationsAfter, h, if_neg (by decide)]
  cases r.awaits <;> rfl

/-- What is expected after one step more. -/
theorem awaited_concat (root : Root) (steps : List Step) (s : Step) :
    Step.awaited root (steps ++ [s]) =
      expectationsAfter (Step.awaited root steps) s.realization := by
  have hall : (steps ++ [s]).all Step.isBlank = (steps.all Step.isBlank && s.isBlank) := by
    rw [List.all_append, List.all_cons, List.all_nil, Bool.and_true]
  have hone : [s].filterMap (·.realization.awaits) = s.realization.awaits.toList := by
    rw [List.filterMap_cons]
    cases s.realization.awaits <;> rfl
  cases hs : s.isBlank with
  | false =>
    have hfrom : Step.fromLast (fun s => !s.isBlank) (steps ++ [s]) = [s] := by
      rw [Step.fromLast_concat, hs]
      rfl
    rw [Step.awaited, hall, hs, Bool.and_false, if_neg (by decide), hfrom, hone,
      expectationsAfter_of_not_isBlank _ hs]
  | true =>
    have hfrom : Step.fromLast (fun s => !s.isBlank) (steps ++ [s]) =
        Step.fromLast (fun s => !s.isBlank) steps ++ [s] := by
      rw [Step.fromLast_concat, hs]
      rfl
    rw [Step.awaited, hall, hs, Bool.and_true, hfrom, List.filterMap_append,
      List.filterMap_append, hone, Step.awaited]
    split
    · exact (expectationsAfter_of_isBlank _ _ hs).symm
    · have hpending := expectationsAfter_of_isBlank (r := s.realization) ∅
        ((Step.fromLast (fun s => !s.isBlank) steps).filterMap (·.realization.awaits)) hs
      rw [FlagSet.empty_union, FlagSet.empty_union] at hpending
      exact hpending.symm

/-- The analysis with each of the realizations added and led to its state, judged by no gate. -/
def extendAll (g : Grammar) (a : Analysis) (moves : List (Realization × StateId)) : Analysis :=
  moves.foldl (fun a m => a.extend g m.1 m.2) a

theorem extendAll_concat (moves : List (Realization × StateId)) (m : Realization × StateId) :
    a.extendAll g (moves ++ [m]) = (a.extendAll g moves).extend g m.1 m.2 :=
  List.foldl_append ..

/-- Every part of an analysis is what one computes from the root, the input after it and all of the
    realizations with their targets. -/
structure IsComputed (g : Grammar) (root : Root) (state : StateId) (rest : Word)
    (moves : List (Realization × StateId)) (a : Analysis) : Prop where
  sameRoot : a.root = root
  begins : a.rootState = state
  steps : a.steps = Step.chain g state moves
  ends : a.state = Step.chainEnd state moves
  surface : a.surface = root.surface ++ moves.flatMap (·.1.text)
  remaining : a.remaining = rest.drop (moves.flatMap (·.1.text)).length
  lastDerivation : a.lastDerivation = a.steps.reverse.find? Step.derives
  fromDerivation : a.fromDerivation = Step.fromLast Step.derives a.steps
  sinceDerivation : a.sinceDerivation = Step.afterLast Step.derives a.steps
  groups : a.groups = a.sinceDerivation.flatMap fun s =>
    (g.suffix s.realization.suffix).group.toList
  expectations : a.expectations = Step.awaited root a.steps
  lexemeAttributes : a.lexemeAttributes = lexemeView root.lexeme.attributes a.steps
    (g.state a.state)
  attributes : a.attributes = phoneticView root a.surface a.lexemeAttributes
  positions : a.KeepsPositions

variable {root : Root} {state : StateId} {rest : Word} {moves : List (Realization × StateId)}

theorem isComputed_begin (g : Grammar) (root : Root) (state : StateId) (rest : Word) :
    IsComputed g root state rest [] (begin root state rest) where
  sameRoot := rfl
  begins := rfl
  steps := rfl
  ends := rfl
  surface := (List.append_nil _).symm
  remaining := rfl
  lastDerivation := rfl
  fromDerivation := rfl
  sinceDerivation := rfl
  groups := rfl
  expectations := (FlagSet.union_empty _).symm
  lexemeAttributes := rfl
  attributes := by
    have hadded : (begin root state rest).surface.drop root.surface.length = [] :=
      List.drop_length
    rw [phoneticView, hadded]
    rfl
  positions := keepsPositions_begin root state rest

theorem IsComputed.extend (h : IsComputed g root state rest moves a)
    (m : Realization × StateId) :
    IsComputed g root state rest (moves ++ [m]) (a.extend g m.1 m.2) := by
  have hsteps : (a.extend g m.1 m.2).steps = a.steps ++ [a.nextStep g m.1 m.2] := rfl
  have htexts : (moves ++ [m]).flatMap (·.1.text) = moves.flatMap (·.1.text) ++ m.1.text := by
    rw [List.flatMap_append, List.flatMap_singleton]
  constructor
  · exact h.sameRoot
  · exact h.begins
  · rw [hsteps, h.steps, Step.chain_concat, nextStep, h.ends]
  · exact (Step.chainEnd_concat ..).symm
  · rw [surface_extend, h.surface, htexts, List.append_assoc]
  · rw [remaining_extend, h.remaining, htexts, List.drop_drop, List.length_append]
  · rw [h.positions.lastDerivation_extend, h.lastDerivation, hsteps, Step.find?_reverse_concat]
    rfl
  · rw [h.positions.fromDerivation_extend, h.fromDerivation, hsteps, Step.fromLast_concat]
    rfl
  · rw [h.positions.sinceDerivation_extend, h.sinceDerivation, hsteps, Step.afterLast_concat]
    rfl
  · exact h.positions.groups_extend h.groups
  · rw [expectations_extend, h.expectations, hsteps, awaited_concat]
    rfl
  · rw [← h.sameRoot]
    rfl
  · rw [← h.sameRoot]
    rfl
  · exact h.positions.extend

theorem IsComputed.extendAll (h : IsComputed g root state rest moves a)
    (later : List (Realization × StateId)) :
    IsComputed g root state rest (moves ++ later) (a.extendAll g later) := by
  induction later using List.reverseRecOn with
  | nil => rwa [List.append_nil]
  | append_singleton later m ih =>
    rw [extendAll_concat, ← List.append_assoc]
    exact ih.extend m

/-- Whatever realizations are added to a root and wherever they lead, every part of the analysis is
    as if computed anew. -/
theorem isComputed_extendAll (g : Grammar) (root : Root) (state : StateId) (rest : Word)
    (moves : List (Realization × StateId)) :
    IsComputed g root state rest moves ((begin root state rest).extendAll g moves) :=
  (isComputed_begin g root state rest).extendAll moves

/-- A trace is what its own steps make of its root, but for the input ahead. -/
theorem IsTrace.isComputed (h : a.IsTrace g) :
    IsComputed g a.root a.rootState [] (a.steps.map fun s => (s.realization, s.target))
      (a.withRemaining []) := by
  have hreplay : replay g a.root a.rootState [] a.steps = (begin a.root a.rootState []).extendAll g
      (a.steps.map fun s => (s.realization, s.target)) := by
    rw [Analysis.extendAll, List.foldl_map]
    rfl
  rw [h.replayed, List.drop_nil] at hreplay
  exact hreplay ▸ (isComputed_begin g a.root a.rootState []).extendAll _

theorem IsTrace.sinceDerivation_eq (h : a.IsTrace g) :
    a.sinceDerivation = Step.afterLast Step.derives a.steps :=
  h.isComputed.sinceDerivation

/-- Where nothing was derived, all steps are steps since the last derivation. -/
theorem IsTrace.sinceDerivation_eq_steps (h : a.IsTrace g) (hnone : a.lastDerivation = none) :
    a.sinceDerivation = a.steps := by
  have hlast : a.steps.reverse.find? Step.derives = none :=
    h.isComputed.lastDerivation.symm.trans hnone
  rw [h.sinceDerivation_eq, Step.afterLast, List.rtakeWhile_eq_self_iff]
  intro s hs
  rw [List.find?_eq_none] at hlast
  simpa using hlast s (List.mem_reverse.mpr hs)

end Analysis

end TurkishMorphology
