import TurkishMorphology.Grammar.Turkish
import TurkishMorphology.Proofs.Grammar.Template
/-!
# Silent steps

A step is silent when it adds no letter or digit; then its suffix has a form that does not stand for
a letter in every context. In a grammar whose silent edges make no cycle only so many silent steps
can follow one another: each of them lowers the number of silent edges that can still be chained.

## Main definitions

- `Step.isSilent`, `Grammar.mayBeSilent` — silent steps, and edges along which they go
- `Grammar.silentDepth` — how many silent edges can be chained from a state
- `Grammar.Quietens` — each silent edge lowers that number
- `Grammar.SpeaksInside` — apostrophes and the like leave only the states in which roots begin

## Main statements

- `Grammar.Quietens.silentDepth_lt` — a silent step lowers the depth
- `Grammar.quietens_of_rank` — a rank that silent edges lower bounds the depths
- `Turkish.quietens`, `Turkish.speaksInside`
-/

namespace TurkishMorphology

/-- Whether the step adds no letter or digit. -/
def Step.isSilent (s : Step) : Bool := !s.realization.text.hasAlphanumeric

namespace Grammar

variable {g : Grammar} {bound : Nat} {context : PhoneticAttributes} {s : Step}

/-- Whether some form of the suffix may add no letter or digit. -/
def mayBeSilent (g : Grammar) (e : Edge) : Bool :=
  (g.suffix e.suffix).forms.any fun id => !(g.form id).template.isSpoken

/-- The number of edges that may be silent in the longest chain of them that leaves a state, chains
    being followed over at most the given number of edges. -/
def silentDepth (g : Grammar) : Nat → StateId → Nat
  | 0, _ => 0
  | n + 1, s =>
    ((g.edgesFrom s).filter g.mayBeSilent).foldl (fun d e => max d (silentDepth g n e.target + 1)) 0

/-- Each edge that may be silent leads to a state of smaller depth; so such edges make no cycle. -/
def Quietens (g : Grammar) (bound : Nat) : Prop :=
  ∀ e ∈ g.edges, g.mayBeSilent e = true →
    g.silentDepth bound e.target < g.silentDepth bound e.source

theorem silentDepth_le (g : Grammar) (bound : Nat) (s : StateId) :
    g.silentDepth bound s ≤ bound := by
  induction bound generalizing s with
  | zero => exact Nat.le_refl 0
  | succ n ih =>
    rw [silentDepth]
    generalize (g.edgesFrom s).filter g.mayBeSilent = edges
    refine List.foldlRecOn (motive := fun d => d ≤ n + 1) edges _ (Nat.zero_le _) ?_
    intro d hd e _
    exact Nat.max_le.mpr ⟨hd, Nat.succ_le_succ (ih e.target)⟩

/-- A silent step along the grammar goes along an edge that may be silent. -/
theorem mayBeSilent_of_follows (h : s.Follows g context) (hsilent : s.isSilent = true) :
    g.mayBeSilent ⟨s.source, s.realization.suffix, s.target⟩ = true := by
  refine List.any_eq_true.mpr ⟨s.realization.form, h.form, ?_⟩
  rw [Bool.not_eq_true', ← Bool.not_eq_true]
  intro hspoken
  rw [Step.isSilent, h.spelled.hasAlphanumeric_text hspoken] at hsilent
  cases hsilent

theorem Quietens.silentDepth_lt (hg : g.Quietens bound) (h : s.Follows g context)
    (hsilent : s.isSilent = true) :
    g.silentDepth bound s.target < g.silentDepth bound s.source :=
  hg _ h.edge (mayBeSilent_of_follows h hsilent)

theorem silentDepth_lt_succ {e : Edge} (he : e ∈ g.edges) (hsilent : g.mayBeSilent e = true)
    (n : Nat) : g.silentDepth n e.target < g.silentDepth (n + 1) e.source := by
  have hmem : e ∈ (g.edgesFrom e.source).filter g.mayBeSilent :=
    List.mem_filter.mpr ⟨mem_edgesFrom_iff.mpr ⟨he, rfl⟩, hsilent⟩
  have hle (edges : List Edge) (d : Nat) (h : e ∈ edges ∨ g.silentDepth n e.target < d) :
      g.silentDepth n e.target <
        edges.foldl (fun d e => max d (g.silentDepth n e.target + 1)) d := by
    induction edges generalizing d with
    | nil => exact h.resolve_left List.not_mem_nil
    | cons e' edges ih =>
      refine ih _ ?_
      rw [List.mem_cons] at h
      obtain (rfl | h) | h := h
      · exact .inr (Nat.lt_of_lt_of_le (Nat.lt_succ_self _) (Nat.le_max_right ..))
      · exact .inl h
      · exact .inr (Nat.lt_of_lt_of_le h (Nat.le_max_left ..))
  exact hle _ 0 (.inl hmem)

/-- Along no more edges than the rank of a state, chains reach their full length. -/
theorem silentDepth_succ_of_rank {rank : StateId → Nat}
    (hrank : ∀ e ∈ g.edges, g.mayBeSilent e = true → rank e.target < rank e.source) {n : Nat}
    {s : StateId} (hn : rank s ≤ n) : g.silentDepth (n + 1) s = g.silentDepth n s := by
  have hlt {s : StateId} {e : Edge} (he : e ∈ (g.edgesFrom s).filter g.mayBeSilent) :
      rank e.target < rank s := by
    obtain ⟨hfrom, hsilent⟩ := List.mem_filter.mp he
    obtain ⟨hedge, rfl⟩ := mem_edgesFrom_iff.mp hfrom
    exact hrank e hedge hsilent
  induction n generalizing s with
  | zero =>
    have hnone : (g.edgesFrom s).filter g.mayBeSilent = [] :=
      List.eq_nil_iff_forall_not_mem.mpr fun e he =>
        Nat.not_lt_zero _ (Nat.lt_of_lt_of_le (hlt he) hn)
    rw [silentDepth, silentDepth, hnone]
    rfl
  | succ n ih =>
    rw [silentDepth, silentDepth]
    refine List.foldl_ext _ _ 0 fun d e he => ?_
    rw [ih (Nat.le_of_lt_succ (Nat.lt_of_lt_of_le (hlt he) hn))]

/-- A rank that silent edges lower. -/
theorem quietens_of_rank (rank : StateId → Nat) (hbound : ∀ s, rank s ≤ bound)
    (hrank : ∀ e ∈ g.edges, g.mayBeSilent e = true → rank e.target < rank e.source) :
    g.Quietens bound := by
  intro e he hsilent
  have hlt := hrank e he hsilent
  cases bound with
  | zero => exact absurd (hbound e.source) (by omega)
  | succ n =>
    have hle := hbound e.source
    rw [silentDepth_succ_of_rank hrank (by omega)]
    exact silentDepth_lt_succ he hsilent n

/-- A form that adds something which need not be a letter, such as an apostrophe, leaves only states
    that no edge leads to. -/
def SpeaksInside (g : Grammar) : Prop :=
  ∀ e ∈ g.edges, ∀ id ∈ (g.suffix e.suffix).forms, (g.form id).template.slots = [] ∨
    (g.form id).template.isSpoken = true ∨ ∀ e' ∈ g.edges, e'.target ≠ e.source

/-- From a state that an edge leads to a step adds nothing, or a letter among other things. -/
theorem SpeaksInside.hasAlphanumeric_text (hg : g.SpeaksInside) (h : s.Follows g context)
    {e : Edge} (he : e ∈ g.edges) (hsource : e.target = s.source) (hne : s.realization.text ≠ []) :
    s.realization.text.hasAlphanumeric = true := by
  rcases hg _ h.edge _ h.form with hnil | hspoken | hinitial
  · exact absurd (h.spelled.text_eq_nil hnil) hne
  · exact h.spelled.hasAlphanumeric_text hspoken
  · exact absurd hsource (hinitial e he)

end Grammar

namespace Turkish

/-- The silent edges in the longest chain of them that leaves a state, in the order of the
    states. -/
def silentRanks : List Nat :=
  [0, 0, 0, 0, 0, 0, 0, 7, 6, 5, 4, 0, 3, 0, 8, 9, 0, 8, 1, 0, 7, 6, 5, 4, 0, 3, 3, 0, 2, 0, 1, 1,
    2, 0, 9, 0, 8]

theorem quietens : grammar.Quietens 9 := by
  refine Grammar.quietens_of_rank (fun s => silentRanks.getD s.index 0) (fun s => ?_) ?_
  · have hall : ∀ n ∈ silentRanks, n ≤ 9 := by decide
    rw [List.getD_eq_getElem?_getD]
    cases hrank : silentRanks[s.index]? with
    | none => exact Nat.zero_le 9
    | some n => exact hall n (List.mem_of_getElem? hrank)
  · decide +kernel

theorem speaksInside : grammar.SpeaksInside := by
  unfold Grammar.SpeaksInside
  decide +kernel

end Turkish

end TurkishMorphology
