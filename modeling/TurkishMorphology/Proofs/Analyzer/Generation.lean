import TurkishMorphology.Analyzer
import TurkishMorphology.Proofs.Analysis.Step
import Mathlib.Data.List.Basic
import Mathlib.Logic.Relation
import Mathlib.Logic.Function.Iterate
/-!
# The generations of a search

The search goes from one generation to the next by taking every continuation that the gates
accept. What it finds are the complete analyses of all its generations, one generation after the
other; how many generations it may use decides only whether it comes to an end.

## Main definitions

- `Analyzer.accepted` — the steps that the gates let an analysis take
- `Analyzer.generationAt` — the generations that begin with given analyses
- `Analyzer.Leads` — one step of the search
- `Analyzer.Stops` — finished analyses cannot go on

## Main statements

- `Analyzer.search_eq_ok` — the outcome of a search in terms of its generations
- `Analyzer.search_eq_error` — how a search can fail
- `Analyzer.mem_search_iff` — what a search finds
- `Analyzer.search_mono` — a larger limit changes no outcome
-/

namespace TurkishMorphology

namespace Analyzer

variable {z : Analyzer}

/-- The steps that the gates let an analysis take, in the order of the continuations. -/
def accepted (z : Analyzer) (a : Analysis) : List Analysis :=
  match z.paradigm.cell? a.state a.attributes with
  | none => []
  | some cell => cell.continuations.filterMap fun c => (a.takeContinuation z.grammar c).toOption

def nextGeneration (z : Analyzer) (as : List Analysis) : List Analysis :=
  (z.unfinished as).flatMap z.accepted

/-- The generations that begin with the given analyses. -/
def generationAt (z : Analyzer) (as : List Analysis) (n : Nat) : List Analysis :=
  z.nextGeneration^[n] as

def Leads (z : Analyzer) (a b : Analysis) : Prop := b ∈ z.accepted a

/-- Finished analyses cannot go on. -/
def Stops (z : Analyzer) : Prop := ∀ a, z.isFinished a = true → z.accepted a = []

@[simp]
theorem generationAt_zero (as : List Analysis) : z.generationAt as 0 = as := rfl

theorem generationAt_succ (as : List Analysis) (n : Nat) :
    z.generationAt as (n + 1) = z.generationAt (z.nextGeneration as) n := rfl

theorem generationAt_succ' (as : List Analysis) (n : Nat) :
    z.generationAt as (n + 1) = z.nextGeneration (z.generationAt as n) :=
  Function.iterate_succ_apply' ..

theorem leads_iff {a b : Analysis} :
    z.Leads a b ↔ ∃ cell, z.paradigm.cell? a.state a.attributes = some cell ∧
      ∃ c ∈ cell.continuations, a.takeContinuation z.grammar c = .ok b := by
  unfold Leads accepted
  cases z.paradigm.cell? a.state a.attributes with
  | none => simp
  | some cell => simp [Except.toOption_eq_some_iff]

/-- Looking only at continuations that the input goes on with loses no step, since the gates
    refuse all others. -/
theorem successors_eq_ok {a : Analysis} {bs : List Analysis} (h : z.successors a = .ok bs) :
    bs = z.accepted a := by
  unfold successors at h
  unfold accepted
  cases hcell : z.paradigm.cell? a.state a.attributes with
  | none => simp [hcell] at h
  | some cell =>
    simp only [hcell, Except.ok.injEq] at h
    rw [← h, List.filterMap_filter]
    refine List.filterMap_congr fun c _ => ?_
    split
    · rfl
    · next hc =>
      rw [eq_comm, Option.eq_none_iff_forall_ne_some]
      intro b hb
      have htake := Except.toOption_eq_some_iff.mp hb
      have hallows := (Analysis.takeContinuation_eq_ok_iff.mp htake).1
      exact hc (List.isPrefixOf_iff_prefix.mpr hallows.input)

theorem generation_eq_ok {as bs : List Analysis} (h : z.generation as = .ok bs) :
    bs = as.flatMap z.accepted := by
  obtain ⟨bss, hbss, hflat⟩ := Except.bind_eq_ok_iff.mp h
  cases hflat
  rw [Except.mapM_eq_ok_iff] at hbss
  clear h
  have hmap : bss = as.map z.accepted := by
    induction hbss with
    | nil => rfl
    | cons hb _ ih => rw [List.map_cons, successors_eq_ok hb, ih]
  rw [hmap, ← List.flatMap_def]

theorem generation_eq_ok_of_cells {as : List Analysis}
    (h : ∀ a ∈ as, (z.paradigm.cell? a.state a.attributes).isSome = true) :
    z.generation as = .ok (as.flatMap z.accepted) := by
  obtain ⟨bss, hbss⟩ : ∃ bss, as.mapM z.successors = .ok bss := by
    refine Except.exists_mapM_eq_ok fun a ha => ?_
    obtain ⟨cell, hcell⟩ := Option.isSome_iff_exists.mp (h a ha)
    exact ⟨_, by rw [successors, hcell]⟩
  have hflat : z.generation as = .ok bss.flatten := Except.bind_eq_ok_iff.mpr ⟨bss, hbss, rfl⟩
  rw [hflat, generation_eq_ok hflat]

/-- The complete analyses of the first generations, one generation after the other. -/
def completeUpTo (z : Analyzer) (as : List Analysis) (n : Nat) : List Analysis :=
  (List.range n).flatMap fun k => z.complete (z.generationAt as k)

theorem completeUpTo_succ (as : List Analysis) (n : Nat) :
    z.completeUpTo as (n + 1) = z.complete as ++ z.completeUpTo (z.nextGeneration as) n := by
  simp [completeUpTo, List.range_succ_eq_map, List.flatMap_map, generationAt_succ]

/-- What one round of the search does: either nothing is left to go on, or the search goes to
    the next generation with one generation fewer to use. -/
theorem search_eq_ok_iff {left : Nat} {as found : List Analysis} :
    z.search left as = .ok found ↔
      (z.unfinished as = [] ∧ z.complete as = found) ∨
        (z.unfinished as ≠ [] ∧ ∃ left', left = left' + 1 ∧
          ∃ next, z.generation (z.unfinished as) = .ok next ∧
            ∃ later, z.search left' next = .ok later ∧ z.complete as ++ later = found) := by
  by_cases hlive : z.unfinished as = []
  · rw [search.eq_def]
    simp [hlive]
  · cases left with
    | zero =>
      rw [search.eq_2 _ _ hlive]
      simp [hlive]
    | succ left =>
      rw [search.eq_3 _ _ _ hlive]
      simp [hlive, Except.bind_eq_ok_iff, pure, Except.pure]

/-- A search ends with the first generation in which no analysis goes on, and finds what is
    complete in the generations up to that one. -/
theorem search_eq_ok {left : Nat} {as found : List Analysis} (h : z.search left as = .ok found) :
    ∃ n ≤ left, z.unfinished (z.generationAt as n) = [] ∧
      found = z.completeUpTo as (n + 1) := by
  -- Induction on the generations left, for all first generations at once.
  induction left generalizing as found with
  | zero =>
    rcases search_eq_ok_iff.mp h with ⟨hlive, rfl⟩ | ⟨-, left', hleft, -⟩
    · exact ⟨0, Nat.le_refl _, hlive, by simp [completeUpTo]⟩
    · omega
  | succ left ih =>
    rcases search_eq_ok_iff.mp h with
      ⟨hlive, rfl⟩ | ⟨-, left', hleft, next, hnext, later, hlater, rfl⟩
    · exact ⟨0, Nat.zero_le _, hlive, by simp [completeUpTo]⟩
    · obtain rfl : left = left' := by omega
      obtain rfl : next = z.nextGeneration as := generation_eq_ok hnext
      obtain ⟨n, hn, hend, rfl⟩ := ih hlater
      exact ⟨n + 1, by omega, hend, (completeUpTo_succ as (n + 1)).symm⟩

/-- If each analysis that the search comes across has a cell, the search can fail in one way only:
    analyses are still going on in the last generation it may use. -/
theorem search_eq_error {left : Nat} {as : List Analysis} {fault : AnalysisFault}
    (h : z.search left as = .error fault)
    (hcells : ∀ n, ∀ a ∈ z.generationAt as n,
      (z.paradigm.cell? a.state a.attributes).isSome = true) :
    z.unfinished (z.generationAt as left) ≠ [] ∧ fault =
      .generationsExceeded (z.unfinished (z.generationAt as left)).length
        z.options.maxGenerations := by
  induction left generalizing as with
  | zero =>
    by_cases hlive : z.unfinished as = []
    · rw [search_eq_ok_iff.mpr (.inl ⟨hlive, rfl⟩)] at h
      cases h
    · rw [search.eq_2 _ _ hlive] at h
      cases h
      exact ⟨hlive, rfl⟩
  | succ left ih =>
    by_cases hlive : z.unfinished as = []
    · rw [search_eq_ok_iff.mpr (.inl ⟨hlive, rfl⟩)] at h
      cases h
    · have hnext : z.generation (z.unfinished as) = .ok (z.nextGeneration as) :=
        generation_eq_ok_of_cells fun a ha => hcells 0 a (List.mem_of_mem_filter ha)
      rw [search.eq_3 _ _ _ hlive] at h
      rcases Except.bind_eq_error_iff.mp h with h | ⟨next, hnext', h⟩
      · rw [hnext] at h
        cases h
      · rw [hnext, Except.ok.injEq] at hnext'
        subst hnext'
        rcases Except.bind_eq_error_iff.mp h with h | ⟨later, -, h⟩
        · exact ih h fun n => hcells (n + 1)
        · cases h

/-- After a generation in which no analysis goes on there are no more analyses. -/
theorem generationAt_eq_nil {as : List Analysis} {n k : Nat}
    (h : z.unfinished (z.generationAt as n) = []) (hk : n < k) : z.generationAt as k = [] := by
  induction hk with
  | refl => rw [generationAt_succ', nextGeneration, h, List.flatMap_nil]
  | step _ ih => rw [generationAt_succ', ih]; rfl

/-- A search that comes to an end does so with any larger limit, and with the same outcome. -/
theorem search_mono {left left' : Nat} {options : Options} {as found : List Analysis}
    (h : z.search left as = .ok found) (hle : left ≤ left') :
    ({ z with options } : Analyzer).search left' as = .ok found := by
  induction left generalizing left' as found with
  | zero =>
    rcases search_eq_ok_iff.mp h with hend | ⟨-, left'', hleft, -⟩
    · exact search_eq_ok_iff.mpr (.inl hend)
    · omega
  | succ left ih =>
    rcases search_eq_ok_iff.mp h with
      hend | ⟨hlive, left'', hleft, next, hnext, later, hlater, hfound⟩
    · exact search_eq_ok_iff.mpr (.inl hend)
    · obtain rfl : left = left'' := by omega
      refine search_eq_ok_iff.mpr
        (.inr ⟨hlive, left' - 1, by omega, next, hnext, later, ?_, hfound⟩)
      exact ih hlater (by omega)

theorem mem_generationAt {as : List Analysis} {n : Nat} {b : Analysis}
    (h : b ∈ z.generationAt as n) : ∃ a ∈ as, Relation.ReflTransGen z.Leads a b := by
  induction n generalizing b with
  | zero => exact ⟨b, h, .refl⟩
  | succ n ih =>
    rw [generationAt_succ', nextGeneration, List.mem_flatMap] at h
    obtain ⟨c, hc, hb⟩ := h
    obtain ⟨a, ha, hac⟩ := ih (List.mem_of_mem_filter hc)
    exact ⟨a, ha, hac.tail hb⟩

theorem exists_mem_generationAt (hz : z.Stops) {as : List Analysis} {a b : Analysis} (ha : a ∈ as)
    (h : Relation.ReflTransGen z.Leads a b) : ∃ n, b ∈ z.generationAt as n := by
  induction h with
  | refl => exact ⟨0, ha⟩
  | @tail b c _ hbc ih =>
    obtain ⟨n, hb⟩ := ih
    -- Finished analyses lead nowhere, so `b` is among those that go on.
    have hgoes : z.isFinished b = false := by
      by_contra hfin
      rw [Leads, hz b (by simpa using hfin)] at hbc
      cases hbc
    refine ⟨n + 1, ?_⟩
    rw [generationAt_succ', nextGeneration, List.mem_flatMap]
    exact ⟨b, List.mem_filter.mpr ⟨hb, by simp [hgoes]⟩, hbc⟩

/-- A search finds the finished analyses that its first generation leads to and that have read
    all input, and no others. -/
theorem mem_search_iff (hz : z.Stops) {left : Nat} {as found : List Analysis}
    (h : z.search left as = .ok found) {b : Analysis} :
    b ∈ found ↔ (∃ a ∈ as, Relation.ReflTransGen z.Leads a b) ∧ z.isFinished b = true ∧
      b.remaining = [] := by
  obtain ⟨n, -, hend, rfl⟩ := search_eq_ok h
  simp only [completeUpTo, List.mem_flatMap, List.mem_range, complete, List.mem_filter,
    Bool.and_eq_true, List.isEmpty_iff]
  constructor
  · rintro ⟨k, -, hb, hfin, hrem⟩
    exact ⟨mem_generationAt hb, hfin, hrem⟩
  · rintro ⟨⟨a, ha, hab⟩, hfin, hrem⟩
    obtain ⟨k, hb⟩ := exists_mem_generationAt hz ha hab
    have hk : k < n + 1 := by
      by_contra hk
      rw [generationAt_eq_nil hend (by omega)] at hb
      cases hb
    exact ⟨k, hk, hb, hfin, hrem⟩

end Analyzer

end TurkishMorphology
