import TurkishMorphology.Grammar.Turkish
import TurkishMorphology.Proofs.Grammar.Continuation
import TurkishMorphology.Proofs.Result
/-!
# What the grammar of Turkish is like

Properties of grammars that the analyser relies on, and that the tables of Turkish have.

## Main definitions

- `Grammar.RestsAtTerminals` — no suffix leaves a terminal state
- `Grammar.IsClosed`, `Grammar.NamesStates` — every suffix, and every name, leads to a state of the
  grammar

## Main statements

- `Turkish.outcome_making` — the grammar is what its making comes to
- `Turkish.restsAtTerminals`, `Turkish.isClosed`, `Turkish.namesStates`
- `Turkish.exists_rootState`, `Turkish.rootState_eq_verbRoot_iff` — where roots begin
-/

namespace TurkishMorphology

namespace Grammar

/-- No suffix leaves a terminal state. -/
def RestsAtTerminals (g : Grammar) : Prop :=
  ∀ e ∈ g.edges, (g.state e.source).isTerminal = false

theorem RestsAtTerminals.continuations_eq_nil {g : Grammar} (h : g.RestsAtTerminals) {s : StateId}
    (hs : (g.state s).isTerminal = true) (context : PhoneticAttributes) :
    g.continuations s context = [] := by
  rw [List.eq_nil_iff_forall_not_mem]
  intro c hc
  obtain ⟨e, he, rfl, -⟩ := mem_continuations_iff.mp hc
  rw [h e he] at hs
  cases hs

end Grammar

namespace Grammar

/-- Every suffix leads to a state of the grammar. -/
def IsClosed (g : Grammar) : Prop := ∀ e ∈ g.edges, e.target ∈ g.stateIds

/-- Every name of a state leads to a state of the grammar. -/
def NamesStates (g : Grammar) : Prop := ∀ entry ∈ g.stateIndex, entry.2 ∈ g.stateIds

theorem NamesStates.mem_stateIds {g : Grammar} (hg : g.NamesStates) {name : String} {s : StateId}
    (h : g.stateId name = .ok s) : s ∈ g.stateIds := by
  obtain ⟨before, after, hindex, -⟩ := List.lookup_eq_some_iff.mp (stateId_eq_ok_iff.mp h)
  exact hg (name, s) (by simp [hindex])

end Grammar

namespace Turkish

/-- No step in the making of the grammar fails, and what they make are the tables. -/
theorem outcome_making : making.outcome .empty = .ok (grammar, ()) := by decide +kernel

theorem restsAtTerminals : Turkish.grammar.RestsAtTerminals := by
  unfold Grammar.RestsAtTerminals
  decide

theorem isClosed : Turkish.grammar.IsClosed := by
  unfold Grammar.IsClosed
  decide

theorem namesStates : Turkish.grammar.NamesStates := by
  unfold Grammar.NamesStates
  decide

/-- Where a root begins is decided by its part of speech alone, so what holds of it for all parts
    of speech holds of it for all roots. -/
theorem forall_rootState {P : PrimaryPos → Except GrammarError StateId → Prop}
    (h : ∀ pos ∈ PrimaryPos.all, ∀ secondary ∈ none :: SecondaryPos.all.map some,
      P pos (grammar.rootState (.coined [] { citation := [], lemmaRoot := [], pos, secondary })))
    (root : Root) : P root.lexeme.pos (grammar.rootState root) := by
  refine h root.lexeme.pos (PrimaryPos.mem_all _) root.lexeme.secondary ?_
  cases root.lexeme.secondary with
  | none => exact List.mem_cons_self ..
  | some s => exact List.mem_cons_of_mem _ (List.mem_map_of_mem (SecondaryPos.mem_all s))

/-- Every root has a state to begin in. -/
theorem exists_rootState (root : Root) :
    ∃ s ∈ grammar.stateIds, grammar.rootState root = .ok s :=
  forall_rootState (P := fun _ state => ∃ s ∈ grammar.stateIds, state = .ok s) (by decide)
    root

theorem rootState_mem_stateIds {root : Root} {s : StateId} (h : grammar.rootState root = .ok s) :
    s ∈ grammar.stateIds := by
  obtain ⟨t, ht, hroot⟩ := exists_rootState root
  rw [h] at hroot
  cases hroot
  exact ht

/-- Only nouns begin in different states. -/
theorem rootState_eq_rootStateOf {root : Root} (h : root.lexeme.pos ≠ .noun) :
    grammar.rootState root = grammar.rootStateOf root.lexeme.pos :=
  forall_rootState (P := fun pos state => pos ≠ .noun → state = grammar.rootStateOf pos)
    (by decide) root h

/-- Verbs, and no other words, begin in the state of verb roots. -/
theorem rootState_eq_verbRoot_iff {root : Root} :
    grammar.rootState root = .ok StateName.verbRoot.id ↔ root.lexeme.pos = .verb := by
  have hall := forall_rootState (P := fun pos state =>
    state.toOption = some StateName.verbRoot.id ↔ pos = .verb) (by decide) root
  rw [← hall, Except.toOption_eq_some_iff]

end Turkish

end TurkishMorphology
