import TurkishMorphology.Proofs.Analysis.Segment
import TurkishMorphology.Proofs.Analysis.Step
import Mathlib.Data.Nat.Init
/-!
# Runs

A run begins with a root alone and makes one move after another, each of which every gate accepts.
A form puts up to three conditions on a run, and they are asked at three moments: before the form is
taken, after the step that follows it, and after the step that leaves its derivation. The last two
are found in what the analysis keeps of its steps, so it has to be shown that nothing is lost there:
a step stays in the list until its derivation is left.

## Main definitions

- `Analysis.Move`, `Analysis.take` — the two ways to go on, and going on in either
- `Analysis.IsRun` — the analyses that accepted moves lead through
- `Analysis.HeedsGuards` — each condition of each form holds when it is asked

## Main statements

- `Analysis.IsRun.mem_fromDerivation` — a step is kept until its derivation is left
- `Analysis.IsRun.heedsGuards` — every run heeds the conditions of its forms

## Design notes

The gates ask a reading which analyses satisfy a condition, and the reading is arbitrary here, so
the conditions of a grammar stand for any predicates on analyses.
-/

namespace TurkishMorphology

namespace Analysis

/-- A move is along a continuation of the paradigm, or takes a form on the way to a state. -/
inductive Move where
  | continuation (c : Continuation)
  | form (id : FormId) (target : StateId)

def Move.formId : Move → FormId
  | .continuation c => c.realization.form
  | .form id _ => id

/-- Makes a move, if the gates let it pass. -/
def take (g : Grammar) (a : Analysis) (m : Move)
    (reading : Condition.Reading := Condition.holds) : Except Refusal Analysis :=
  match m with
  | .continuation c => a.takeContinuation g c reading
  | .form id target => a.takeForm g id target reading

variable {g : Grammar} {a b : Analysis} {reading : Condition.Reading} {m : Move}

/-- An accepted move takes its form, and every gate lets it pass. -/
theorem exists_allows_of_take (h : a.take g m reading = .ok b) :
    ∃ r target, r.form = m.formId ∧ a.Allows g r target reading ∧ b = a.extend g r target := by
  cases m with
  | continuation c =>
    obtain ⟨hallows, rfl⟩ := takeContinuation_eq_ok_iff.mp h
    exact ⟨_, _, rfl, hallows, rfl⟩
  | form id target =>
    obtain ⟨-, -, hallows, rfl⟩ := takeForm_eq_ok_iff.mp h
    exact ⟨_, _, rfl, hallows, rfl⟩

/-- The analyses that accepted moves lead through from a root: `c i` is the one before move `i`. -/
structure IsRun (g : Grammar) (reading : Condition.Reading) (moves : List Move)
    (c : Nat → Analysis) : Prop where
  fresh : ∃ root state rest, c 0 = begin root state rest
  accepted : ∀ i m, moves[i]? = some m → (c i).take g m reading = .ok (c (i + 1))

/-- Each condition of each form holds when it is asked. -/
structure HeedsGuards (g : Grammar) (reading : Condition.Reading) (moves : List Move)
    (c : Nat → Analysis) : Prop where
  /-- The condition before a form holds of the analysis that the form is added to. -/
  before : ∀ i m, moves[i]? = some m →
    Condition.holdsIfAny (g.form m.formId).guards.before (c i) reading = true
  /-- The condition on the next step holds after that step, if there is one. -/
  next : ∀ i m, moves[i]? = some m → i + 1 < moves.length →
    Condition.holdsIfAny (g.form m.formId).guards.next (c (i + 2)) reading = true
  /-- The condition on leaving holds after the step that leaves the derivation of the form: move `j`
      leaves a derivational state, and no move after `i` and before `j` does. -/
  leaving : ∀ i j m, moves[i]? = some m → i < j → j < moves.length →
    (g.state (c j).state).isDerivational = true →
    (∀ k, i < k → k < j → (g.state (c k).state).isDerivational = false) →
    Condition.holdsIfAny (g.form m.formId).guards.leaving (c (j + 1)) reading = true

namespace IsRun

variable {moves : List Move} {c : Nat → Analysis}

theorem exists_step (h : IsRun g reading moves c) {i : Nat} {m : Move} (hm : moves[i]? = some m) :
    ∃ r target, r.form = m.formId ∧ (c i).Allows g r target reading ∧
      c (i + 1) = (c i).extend g r target :=
  exists_allows_of_take (h.accepted i m hm)

theorem exists_step_of_lt (h : IsRun g reading moves c) {i : Nat} (hi : i < moves.length) :
    ∃ r target, (c i).Allows g r target reading ∧ c (i + 1) = (c i).extend g r target := by
  obtain ⟨r, target, -, hstep⟩ := h.exists_step (List.getElem?_eq_getElem hi)
  exact ⟨r, target, hstep⟩

/-- A property of roots alone that every allowed step preserves holds all along a run. -/
theorem invariant {P : Analysis → Prop} (h : IsRun g reading moves c)
    (start : ∀ root state rest, P (begin root state rest))
    (step : ∀ a r target, P a → a.Allows g r target reading → P (a.extend g r target)) :
    ∀ i, i ≤ moves.length → P (c i) := by
  intro i
  induction i with
  | zero =>
    intro _
    obtain ⟨root, state, rest, hfresh⟩ := h.fresh
    exact hfresh ▸ start root state rest
  | succ i ih =>
    intro hi
    obtain ⟨r, target, hallows, hnext⟩ := h.exists_step_of_lt hi
    exact hnext ▸ step _ _ _ (ih (Nat.le_of_succ_le hi)) hallows

theorem keepsPositions (h : IsRun g reading moves c) {i : Nat} (hi : i ≤ moves.length) :
    (c i).KeepsPositions :=
  h.invariant keepsPositions_begin (fun _ _ _ ha _ => ha.extend) i hi

/-- The last step after move `i` has the form of the move. -/
theorem exists_lastStep? (h : IsRun g reading moves c) {i : Nat} {m : Move}
    (hm : moves[i]? = some m) :
    ∃ t, (c (i + 1)).lastStep? = some t ∧ t.realization.form = m.formId := by
  obtain ⟨r, target, hform, -, hnext⟩ := h.exists_step hm
  exact ⟨_, hnext ▸ lastStep?_extend, hform⟩

/-- A step is kept until its derivation is left. -/
theorem mem_fromDerivation (h : IsRun g reading moves c) {i j : Nat} {m : Move}
    (hm : moves[i]? = some m) (hij : i < j) (hj : j ≤ moves.length)
    (hstays : ∀ k, i < k → k < j → (g.state (c k).state).isDerivational = false) :
    ∃ t ∈ (c j).fromDerivation, t.realization.form = m.formId := by
  -- The list is begun anew by move `i` or not at all, so the induction starts right after it.
  induction j, hij using Nat.le_induction with
  | base =>
    obtain ⟨r, target, hform, -, hnext⟩ := h.exists_step hm
    have hpositions := h.keepsPositions (Nat.le_of_lt (List.getElem?_eq_some_iff.mp hm).1)
    refine ⟨(c i).nextStep g r target, ?_, hform⟩
    rw [hnext, hpositions.fromDerivation_extend]
    split <;> simp
  | succ j hij ih =>
    obtain ⟨t, ht, hform⟩ := ih (Nat.le_of_succ_le hj) fun k hik hkj =>
      hstays k hik (Nat.lt_succ_of_lt hkj)
    obtain ⟨r, target, -, hnext⟩ := h.exists_step_of_lt hj
    have hinside : (g.state (c j).state).isDerivational = false :=
      hstays j hij (Nat.lt_succ_self j)
    refine ⟨t, ?_, hform⟩
    rw [hnext, (h.keepsPositions (Nat.le_of_succ_le hj)).fromDerivation_extend, hinside,
      if_neg (by decide)]
    exact List.mem_append_left _ ht

/-- Every run heeds the conditions of its forms. -/
theorem heedsGuards (h : IsRun g reading moves c) : HeedsGuards g reading moves c where
  before i m hm := by
    obtain ⟨r, target, hform, hallows, -⟩ := h.exists_step hm
    exact hform ▸ hallows.before
  next i m hm hi := by
    obtain ⟨t, hlast, hform⟩ := h.exists_lastStep? hm
    obtain ⟨r, target, hallows, hnext⟩ := h.exists_step_of_lt hi
    rw [hnext, ← hform]
    exact hallows.next t hlast
  leaving i j m hm hij hj hleaves hstays := by
    obtain ⟨t, ht, hform⟩ := h.mem_fromDerivation hm hij (Nat.le_of_lt hj) hstays
    obtain ⟨r, target, hallows, hnext⟩ := h.exists_step_of_lt hj
    rw [hnext, ← hform]
    exact hallows.leaving hleaves t ht

end IsRun

/-- The analysis after the first moves, those that are refused being left out. -/
def afterMoves (g : Grammar) (a : Analysis) (moves : List Move) (i : Nat) : Analysis :=
  (moves.take i).foldl (fun a m => ((a.take g m).toOption).getD a) a

theorem afterMoves_succ {moves : List Move} {i : Nat} (hi : i < moves.length) :
    afterMoves g a moves (i + 1) =
      ((afterMoves g a moves i).take g moves[i]).toOption.getD (afterMoves g a moves i) := by
  rw [afterMoves, List.take_succ_eq_append_getElem hi, List.foldl_append]
  rfl

/-- Moves make a run if none of them is refused. -/
theorem isRun_afterMoves {root : Root} {state : StateId} {rest : Word} {moves : List Move}
    (h : ∀ i, (hi : i < moves.length) →
      ((afterMoves g (begin root state rest) moves i).take g moves[i]).toOption.isSome = true) :
    IsRun g Condition.holds moves (afterMoves g (begin root state rest) moves) := by
  refine ⟨⟨root, state, rest, rfl⟩, fun i m hm => ?_⟩
  obtain ⟨hi, rfl⟩ := List.getElem?_eq_some_iff.mp hm
  obtain ⟨b, hb⟩ := Option.isSome_iff_exists.mp (h i hi)
  rw [afterMoves_succ hi, hb, Option.getD_some]
  exact Except.toOption_eq_some_iff.mp hb

/-- A grammar whose first form asks something at each of the three moments: nothing was taken before
    it, the second suffix follows it, and the third leaves its derivation. -/
def guardedGrammar : Grammar where
  states := #[⟨"BEGINNING", .nonTerminal, .noun⟩, ⟨"DERIVATION", .derivational, .noun⟩,
    ⟨"END", .terminal, .noun⟩]
  suffixes := #[{ name := "First", printed := none, forms := [⟨0⟩] },
    { name := "Second", printed := none, forms := [⟨1⟩] },
    { name := "Third", printed := none, forms := [⟨2⟩] }]
  forms := #[
    { suffix := ⟨0⟩, template := .of ['a'],
      guards := ⟨some .fresh, some (.followedBy ⟨1⟩), some (.followedBy ⟨2⟩)⟩ },
    { suffix := ⟨1⟩, template := .of ['b'] },
    { suffix := ⟨2⟩, template := .of ['c'] }]

def guardedMoves : List Move := [.form ⟨0⟩ ⟨0⟩, .form ⟨1⟩ ⟨1⟩, .form ⟨2⟩ ⟨2⟩]

/-- A run in which all three conditions of the first form are asked. -/
theorem heedsGuards_guardedGrammar :
    let c := afterMoves guardedGrammar (begin default ⟨0⟩ "abc".toList) guardedMoves
    IsRun guardedGrammar Condition.holds guardedMoves c ∧
      (guardedGrammar.state (c 2).state).isDerivational = true ∧ (c 3).surface = "abc".toList ∧
      HeedsGuards guardedGrammar Condition.holds guardedMoves c := by
  intro c
  have hrun : IsRun guardedGrammar Condition.holds guardedMoves c :=
    isRun_afterMoves (by decide +kernel)
  exact ⟨hrun, by decide +kernel, by decide +kernel, hrun.heedsGuards⟩

end Analysis

end TurkishMorphology
