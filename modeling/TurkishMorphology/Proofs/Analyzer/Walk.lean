import TurkishMorphology.Proofs.Analyzer.Generation
import Mathlib.Data.List.Nodup
/-!
# Walks

A walk says how an analysis came about: the analysis of the first generation it stems from and the
continuation taken at each step, all by their positions. The generations list the walks: each walk
that the gates accept and that goes on from no finished analysis is there once, in the generation
of its length.

## Main definitions

- `Walk` — a walk
- `Analyzer.walkEnd` — where a walk ends, if the gates accept all its steps
- `Analyzer.walksAt` — the walks of a generation, with their ends
- `Analyzer.FindsWalks` — finding the end of each complete walk once

## Main statements

- `Analyzer.map_snd_walksAt` — the ends of the walks are the generation
- `Analyzer.mem_walksAt_iff`, `Analyzer.nodup_walksAt` — each walk is there once
- `Analyzer.findsWalks_search` — a search finds the end of each complete walk once
-/

namespace TurkishMorphology

/-- A walk: where it starts, and the turn it takes at each step. -/
structure Walk where
  start : Nat
  turns : List Nat := []
deriving DecidableEq

def Walk.turn (w : Walk) (i : Nat) : Walk := { w with turns := w.turns ++ [i] }

theorem Walk.turn_inj {v w : Walk} {i j : Nat} (h : v.turn i = w.turn j) : v = w ∧ i = j := by
  obtain ⟨start, turns⟩ := v
  obtain ⟨start', turns'⟩ := w
  simp only [turn, mk.injEq] at h
  obtain ⟨hs, hi⟩ := List.append_inj' h.2 rfl
  exact ⟨by rw [h.1, hs], List.head_eq_of_cons_eq hi⟩

theorem Walk.exists_eq_turn {w : Walk} {n : Nat} (h : w.turns.length = n + 1) :
    ∃ v : Walk, ∃ i, w = v.turn i ∧ v.turns.length = n := by
  obtain hnil | ⟨turns, i, hturns⟩ := w.turns.eq_nil_or_concat
  · rw [hnil] at h
    cases h
  · refine ⟨⟨w.start, turns⟩, i, ?_, ?_⟩
    · rw [turn, ← List.concat_eq_append, ← hturns]
    · simpa [hturns] using h

namespace Analyzer

variable {z : Analyzer}

/-- The step of an analysis along the continuation at a position, if the gates accept it. -/
def stepAt (z : Analyzer) (a : Analysis) (i : Nat) : Option Analysis :=
  (z.paradigm.cell? a.state a.attributes).bind fun cell =>
    cell.continuations[i]?.bind fun c => (a.takeContinuation z.grammar c).toOption

/-- Where a walk from one of the given analyses ends, if the gates accept all its steps. -/
def walkEnd (z : Analyzer) (as : List Analysis) (w : Walk) : Option Analysis :=
  as[w.start]?.bind fun a => w.turns.foldlM z.stepAt a

/-- The turns that the gates accept, with the analyses they lead to. -/
def turns (z : Analyzer) (a : Analysis) : List (Nat × Analysis) :=
  match z.paradigm.cell? a.state a.attributes with
  | none => []
  | some cell => cell.continuations.zipIdx.filterMap fun (c, i) =>
      (a.takeContinuation z.grammar c).toOption.map fun b => (i, b)

/-- The walks of a generation, with their ends. -/
def walksAt (z : Analyzer) (as : List Analysis) : Nat → List (Walk × Analysis)
  | 0 => as.zipIdx.map fun (a, i) => ({ start := i }, a)
  | n + 1 => ((walksAt z as n).filter fun (_, a) => !z.isFinished a).flatMap fun (w, a) =>
      (z.turns a).map fun (i, b) => (w.turn i, b)

theorem map_snd_turns (a : Analysis) : (z.turns a).map Prod.snd = z.accepted a := by
  unfold turns accepted
  cases z.paradigm.cell? a.state a.attributes with
  | none => rfl
  | some cell =>
    have hsnd : ∀ p : Continuation × Nat,
        ((a.takeContinuation z.grammar p.1).toOption.map fun b => (p.2, b)).map Prod.snd
          = (a.takeContinuation z.grammar p.1).toOption := by
      intro p
      simp [Option.map_map, Function.comp_def]
    simp only [List.map_filterMap, hsnd]
    calc (cell.continuations.zipIdx.filterMap fun p =>
          (a.takeContinuation z.grammar p.1).toOption)
        = (cell.continuations.zipIdx.map Prod.fst).filterMap fun c =>
            (a.takeContinuation z.grammar c).toOption := by
          rw [List.filterMap_map]
          rfl
      _ = _ := by rw [List.zipIdx_map_fst]

theorem mem_turns_iff {a b : Analysis} {i : Nat} :
    (i, b) ∈ z.turns a ↔ z.stepAt a i = some b := by
  unfold turns stepAt
  cases z.paradigm.cell? a.state a.attributes with
  | none => simp
  | some cell => simp [List.mem_filterMap, List.mem_zipIdx_iff_getElem?, Option.bind_eq_some_iff]

theorem nodup_turns (a : Analysis) : ((z.turns a).map Prod.fst).Nodup := by
  unfold turns
  cases z.paradigm.cell? a.state a.attributes with
  | none => exact List.nodup_nil
  | some cell =>
    have hpositions : (cell.continuations.zipIdx.map Prod.snd).Nodup := by
      rw [List.zipIdx_map_snd]
      exact List.nodup_range' _
    rw [List.Nodup, List.pairwise_map] at hpositions ⊢
    refine List.pairwise_filterMap.mpr (hpositions.imp ?_)
    intro p q hpq x hx y hy
    obtain ⟨_, -, rfl⟩ := Option.map_eq_some_iff.mp hx
    obtain ⟨_, -, rfl⟩ := Option.map_eq_some_iff.mp hy
    exact hpq

/-- Only analyses that are not finished have turns. -/
theorem Stops.isFinished_eq_false (hz : z.Stops) {a b : Analysis} {i : Nat}
    (h : z.stepAt a i = some b) : z.isFinished a = false := by
  by_contra hfin
  have hnone := hz a (by simpa using hfin)
  rw [← map_snd_turns, List.map_eq_nil_iff] at hnone
  have hmem := mem_turns_iff.mpr h
  rw [hnone] at hmem
  cases hmem

theorem walkEnd_turn (as : List Analysis) (w : Walk) (i : Nat) :
    z.walkEnd as (w.turn i) = (z.walkEnd as w).bind fun a => z.stepAt a i := by
  obtain ⟨start, turns⟩ := w
  simp only [walkEnd, Walk.turn, List.foldlM_append]
  cases as[start]? with
  | none => rfl
  | some a => simp

/-- The ends of the walks are the analyses of the generation, in the same order. -/
theorem map_snd_walksAt (as : List Analysis) (n : Nat) :
    (z.walksAt as n).map Prod.snd = z.generationAt as n := by
  induction n with
  | zero =>
    rw [walksAt, List.map_map]
    exact List.zipIdx_map_fst 0 as
  | succ n ih =>
    have hends : ∀ p : Walk × Analysis,
        ((z.turns p.2).map fun q => (p.1.turn q.1, q.2)).map Prod.snd = z.accepted p.2 := by
      intro p
      rw [List.map_map, ← map_snd_turns]
      rfl
    rw [generationAt_succ', nextGeneration, ← ih, unfinished, List.filter_map, List.flatMap_map,
      walksAt, List.map_flatMap]
    simp only [hends]
    rfl

/-- The walks of a generation are those of its length whose steps the gates accept. -/
theorem mem_walksAt_iff (hz : z.Stops) {as : List Analysis} {n : Nat} {w : Walk} {b : Analysis} :
    (w, b) ∈ z.walksAt as n ↔ w.turns.length = n ∧ z.walkEnd as w = some b := by
  induction n generalizing w b with
  | zero =>
    simp only [walksAt, List.mem_map, List.length_eq_zero_iff]
    constructor
    · rintro ⟨⟨a, i⟩, hmem, heq⟩
      cases heq
      exact ⟨rfl, by simp [walkEnd, List.mk_mem_zipIdx_iff_getElem?.mp hmem]⟩
    · rintro ⟨hturns, hend⟩
      obtain ⟨start, turns⟩ := w
      cases hturns
      have hb : as[start]? = some b := by simpa [walkEnd] using hend
      exact ⟨(b, start), List.mk_mem_zipIdx_iff_getElem?.mpr hb, rfl⟩
  | succ n ih =>
    simp only [walksAt, List.mem_flatMap, List.mem_filter, List.mem_map]
    constructor
    · rintro ⟨⟨v, a⟩, ⟨hv, -⟩, ⟨i, c⟩, hturn, heq⟩
      cases heq
      obtain ⟨hlen, hend⟩ := ih.mp hv
      refine ⟨by simp [Walk.turn, hlen], ?_⟩
      rw [walkEnd_turn, hend, Option.bind_some]
      exact mem_turns_iff.mp hturn
    · rintro ⟨hlen, hend⟩
      -- Without its last turn the walk belongs to the generation before.
      obtain ⟨v, i, rfl, hv⟩ := Walk.exists_eq_turn hlen
      rw [walkEnd_turn] at hend
      obtain ⟨a, ha, hstep⟩ := Option.bind_eq_some_iff.mp hend
      refine ⟨(v, a), ⟨ih.mpr ⟨hv, ha⟩, ?_⟩, (i, b), mem_turns_iff.mpr hstep, rfl⟩
      simp [hz.isFinished_eq_false hstep]

theorem nodup_walksAt (as : List Analysis) (n : Nat) :
    ((z.walksAt as n).map Prod.fst).Nodup := by
  induction n with
  | zero =>
    have hstarts : (as.zipIdx.map Prod.snd).Nodup := by
      rw [List.zipIdx_map_snd]
      exact List.nodup_range' _
    rw [walksAt, List.map_map]
    rw [List.Nodup, List.pairwise_map] at hstarts ⊢
    refine hstarts.imp fun hne heq => hne ?_
    simpa using heq
  | succ n ih =>
    have hturns : ∀ p : Walk × Analysis,
        ((z.turns p.2).map fun q => (p.1.turn q.1, q.2)).map Prod.fst
          = ((z.turns p.2).map Prod.fst).map p.1.turn := by
      intro p
      simp only [List.map_map]
      rfl
    rw [walksAt, List.map_flatMap]
    simp only [hturns]
    rw [List.nodup_flatMap]
    -- Walks from one analysis differ in the last turn, the others in the turns before it.
    constructor
    · intro p _
      exact (nodup_turns p.2).map fun i j h => (Walk.turn_inj h).2
    · rw [List.Nodup, List.pairwise_map] at ih
      refine (ih.filter _).imp fun hne v hv hv' => hne ?_
      obtain ⟨i, -, rfl⟩ := List.mem_map.mp hv
      obtain ⟨j, -, hj⟩ := List.mem_map.mp hv'
      exact (Walk.turn_inj hj).1.symm

/-- Whether an analysis is finished and has read all input. -/
def isComplete (z : Analyzer) (a : Analysis) : Bool := z.isFinished a && a.remaining.isEmpty

theorem isComplete_iff {a : Analysis} :
    z.isComplete a = true ↔ z.isFinished a = true ∧ a.remaining = [] := by
  simp [isComplete]

/-- The results are the ends of all walks to finished analyses that have read all input, and no
    walk is the reason for two of them. -/
def FindsWalks (z : Analyzer) (as results : List Analysis) : Prop :=
  ∃ walks : List Walk, walks.Nodup ∧
    (∀ w, w ∈ walks ↔
      ∃ a, z.walkEnd as w = some a ∧ z.isFinished a = true ∧ a.remaining = []) ∧
    walks.map (z.walkEnd as) = results.map some

/-- The complete walks of the first generations, with their ends. -/
def completeWalks (z : Analyzer) (as : List Analysis) (n : Nat) : List (Walk × Analysis) :=
  (List.range n).flatMap fun k => (z.walksAt as k).filter fun p => z.isComplete p.2

theorem map_snd_completeWalks (as : List Analysis) (n : Nat) :
    (z.completeWalks as n).map Prod.snd = z.completeUpTo as n := by
  rw [completeWalks, completeUpTo, List.map_flatMap]
  congr 1
  funext k
  rw [← map_snd_walksAt, complete, List.filter_map]
  rfl

theorem nodup_completeWalks (hz : z.Stops) (as : List Analysis) (n : Nat) :
    ((z.completeWalks as n).map Prod.fst).Nodup := by
  rw [completeWalks, List.map_flatMap, List.nodup_flatMap]
  constructor
  · intro k _
    exact (nodup_walksAt as k).sublist (List.filter_sublist.map Prod.fst)
  · refine List.nodup_range.imp ?_
    intro j k hne w hj hk
    obtain ⟨⟨_, a⟩, ha, rfl⟩ := List.mem_map.mp hj
    obtain ⟨⟨v, b⟩, hb, hv⟩ := List.mem_map.mp hk
    have hlen := ((mem_walksAt_iff hz).mp (List.mem_of_mem_filter ha)).1
    have hlen' := ((mem_walksAt_iff hz).mp (List.mem_of_mem_filter hb)).1
    obtain rfl := hv
    exact hne (hlen.symm.trans hlen')

/-- A search finds the end of each complete walk once. -/
theorem findsWalks_search (hz : z.Stops) {left : Nat} {as results : List Analysis}
    (h : z.search left as = .ok results) : z.FindsWalks as results := by
  obtain ⟨n, -, hend, rfl⟩ := search_eq_ok h
  have hmem : ∀ w b, (w, b) ∈ z.completeWalks as (n + 1) ↔
      z.walkEnd as w = some b ∧ z.isFinished b = true ∧ b.remaining = [] := by
    intro w b
    simp only [completeWalks, List.mem_flatMap, List.mem_range, List.mem_filter,
      mem_walksAt_iff hz, isComplete_iff]
    constructor
    · rintro ⟨k, -, ⟨-, hw⟩, hb⟩
      exact ⟨hw, hb⟩
    · rintro ⟨hw, hb⟩
      refine ⟨w.turns.length, ?_, ⟨rfl, hw⟩, hb⟩
      -- A longer walk would end in a generation without analyses.
      by_contra hlate
      have hin := List.mem_map_of_mem (f := Prod.snd) ((mem_walksAt_iff hz).mpr ⟨rfl, hw⟩)
      rw [map_snd_walksAt, generationAt_eq_nil hend (by omega)] at hin
      cases hin
  refine ⟨(z.completeWalks as (n + 1)).map Prod.fst, nodup_completeWalks hz as (n + 1), ?_, ?_⟩
  · intro w
    simp only [List.mem_map, Prod.exists, exists_and_right, exists_eq_right, hmem]
  · rw [← map_snd_completeWalks, List.map_map, List.map_map]
    refine List.map_congr_left fun p hp => ?_
    exact ((hmem p.1 p.2).mp hp).1

end Analyzer

end TurkishMorphology
