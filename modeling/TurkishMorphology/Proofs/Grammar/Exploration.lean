import TurkishMorphology.Proofs.Grammar.Template
import TurkishMorphology.Proofs.Grammar.Turkish
import TurkishMorphology.Proofs.Phonetics.Contexts
import Mathlib.Data.List.Nodup
/-!
# The paradigm is a product

A grammar whose suffixes lead to its own states is explored in boundedly many rounds, and the
exploration finds a cell for each state in each context and for nothing else. No continuation leads
out of these cells: its state is one of the grammar, and appending leads from a context to a
context. Neither the bound nor the outcome depends on which of the pending places a round looks at.

## Main definitions

- `Exploration.Round`, `Exploration.Rounds` — looking at any of the pending places, again and again
- `Exploration.IsUnderway` — what holds of an exploration between two rounds
- `Exploration.work` — a bound on the rounds that are left
- `Paradigm.IsProductOf` — one cell for each state in each context

## Main statements

- `Exploration.IsUnderway.round` — a round keeps what holds
- `Exploration.Rounds.add_work_le` — rounds take work off
- `Paradigm.isProductOf_of_exploration` — every exploration of a closed grammar
- `Paradigm.cell?_ofGrammar_eq_some_iff` — the cell of a state in a context
-/

namespace TurkishMorphology

-- ════════════════════════════════════════════════════════════════════════
-- Places
-- ════════════════════════════════════════════════════════════════════════

namespace Grammar

variable {g : Grammar} {place : Place}

theorem mem_places_iff :
    place ∈ g.places ↔ place.1 ∈ g.stateIds ∧ place.2 ∈ Phonetics.contexts := by
  simp only [places, List.mem_flatMap, List.mem_map]
  constructor
  · rintro ⟨s, hs, context, hcontext, rfl⟩
    exact ⟨hs, hcontext⟩
  · rintro ⟨hs, hcontext⟩
    exact ⟨place.1, hs, place.2, hcontext, rfl⟩

theorem nodup_places (g : Grammar) : g.places.Nodup := by
  have hcontexts : Phonetics.contexts.Nodup := by decide +kernel
  have hstates : g.stateIds.Nodup :=
    List.Nodup.map (fun _ _ h => congrArg StateId.index h) List.nodup_range
  exact hstates.product hcontexts

/-- No continuation leads out of the states and contexts. -/
theorem IsClosed.place_mem_places (hg : g.IsClosed) (hplace : place ∈ g.places) {w : Continuation}
    (hw : w ∈ g.continuations place.1 place.2) : w.place ∈ g.places := by
  obtain ⟨e, he, -, id, -, r, -, rfl⟩ := mem_continuations_iff.mp hw
  exact mem_places_iff.mpr
    ⟨hg e he, Phonetics.after_mem_contexts (mem_places_iff.mp hplace).2 r.text⟩

end Grammar

namespace Exploration

variable {g : Grammar} {x y : Exploration} {place : Place} {n : Nat}

-- ════════════════════════════════════════════════════════════════════════
-- Rounds
-- ════════════════════════════════════════════════════════════════════════

/-- A round looks at any of the pending places. -/
inductive Round (g : Grammar) (x : Exploration) : Exploration → Prop
  | look {before after : List Place} {place : Place} (h : x.pending = before ++ place :: after) :
    Round g x (visit g { x with pending := before ++ after } place)

/-- A number of rounds, one after the other. -/
inductive Rounds (g : Grammar) : Nat → Exploration → Exploration → Prop
  | done (x : Exploration) : Rounds g 0 x x
  | more {n : Nat} {x y z : Exploration} (first : Round g x y) (rest : Rounds g n y z) :
    Rounds g (n + 1) x z

/-- What a round can do: a place that was looked at before is dropped, and a new one gets its cell
    and adds the places that this cell leads to. -/
theorem Round.exists_place (hround : Round g x y) :
    ∃ before place after, x.pending = before ++ place :: after ∧
      (place ∈ x.explored ∧ y = { x with pending := before ++ after } ∨
        place ∉ x.explored ∧
          y = { pending := (unexplored (place :: x.explored)
                  ((g.continuations place.1 place.2).map Continuation.place)).reverse ++
                    (before ++ after)
                explored := place :: x.explored
                cells := ⟨place.1, place.2, g.continuations place.1 place.2⟩ :: x.cells
                size := x.size + (g.continuations place.1 place.2).length }) := by
  cases hround with
  | @look before after place hpending =>
    refine ⟨before, place, after, hpending, ?_⟩
    by_cases hold : place ∈ x.explored
    · exact .inl ⟨hold, if_pos hold⟩
    · exact .inr ⟨hold, if_neg hold⟩

-- ════════════════════════════════════════════════════════════════════════
-- What holds between two rounds
-- ════════════════════════════════════════════════════════════════════════

/-- The places looked at and those pending are together all states in all contexts, and what was
    made of the places looked at is what the grammar says of them. -/
structure IsUnderway (g : Grammar) (x : Exploration) : Prop where
  inside : ∀ p, p ∈ x.explored ∨ p ∈ x.pending ↔ p ∈ g.places
  nodup : x.explored.Nodup
  explored : x.cells.map Cell.place = x.explored
  cells : ∀ c ∈ x.cells, c.continuations = g.continuations c.state c.attributes
  size : x.size = (x.cells.flatMap Cell.continuations).length

theorem isUnderway_start (g : Grammar) : (start g).IsUnderway g where
  inside p := by simp [start]
  nodup := List.nodup_nil
  explored := rfl
  cells := by simp [start]
  size := rfl

theorem IsUnderway.mem_places (h : x.IsUnderway g) {before after : List Place}
    (hpending : x.pending = before ++ place :: after) : place ∈ g.places :=
  (h.inside place).mp (.inr (by simp [hpending]))

/-- Looking at a place keeps what holds, wherever among the pending places it stands. -/
theorem IsUnderway.round (hg : g.IsClosed) (h : x.IsUnderway g) (hround : Round g x y) :
    y.IsUnderway g := by
  obtain ⟨before, place, after, hpending, hcase⟩ := hround.exists_place
  have hplace : place ∈ g.places := h.mem_places hpending
  obtain ⟨hold, rfl⟩ | ⟨hnew, rfl⟩ := hcase
  · refine ⟨fun p => ?_, h.nodup, h.explored, h.cells, h.size⟩
    rw [← h.inside p, hpending]
    simp only [List.mem_append, List.mem_cons]
    constructor
    · tauto
    · rintro (hp | hp | rfl | hp)
      · exact .inl hp
      · exact .inr (.inl hp)
      · exact .inl hold
      · exact .inr (.inr hp)
  · refine ⟨fun p => ?_, List.nodup_cons.mpr ⟨hnew, h.nodup⟩, ?_, ?_, ?_⟩
    · have hfound : ∀ w ∈ g.continuations place.1 place.2, w.place ∈ g.places :=
        fun w => hg.place_mem_places hplace
      have hinside := h.inside p
      rw [hpending] at hinside
      simp only [List.mem_append, List.mem_reverse, mem_unexplored_iff, List.mem_map, List.mem_cons]
        at hinside ⊢
      constructor
      · rintro ((rfl | hp) | ⟨⟨w, hw, rfl⟩, -⟩ | hp)
        · exact hplace
        · exact hinside.mp (.inl hp)
        · exact hfound w hw
        · exact hinside.mp (by tauto)
      · intro hp
        have := hinside.mpr hp
        tauto
    · exact congrArg (place :: ·) h.explored
    · intro c hc
      obtain rfl | hc := List.mem_cons.mp hc
      · rfl
      · exact h.cells c hc
    · rw [List.flatMap_cons, List.length_append, h.size, Nat.add_comm]

theorem IsUnderway.rounds (hg : g.IsClosed) (h : x.IsUnderway g) (hrounds : Rounds g n x y) :
    y.IsUnderway g := by
  induction hrounds with
  | done => exact h
  | more first _ ih => exact ih (h.round hg first)

-- ════════════════════════════════════════════════════════════════════════
-- The work that is left
-- ════════════════════════════════════════════════════════════════════════

/-- How many places are pending, and how many may still be found from places not looked at. -/
def work (g : Grammar) (x : Exploration) : Nat :=
  x.pending.length +
    ((unexplored x.explored g.places).flatMap fun p => g.continuations p.1 p.2).length

/-- Looking at a new place takes its continuations off what may still be found. -/
theorem length_flatMap_unexplored_add {explored : List Place} (f : Place → List Continuation)
    (hplace : place ∈ g.places) (hnew : place ∉ explored) :
    ((unexplored (place :: explored) g.places).flatMap f).length + (f place).length =
      ((unexplored explored g.places).flatMap f).length := by
  have hnodup : (unexplored explored g.places).Nodup := g.nodup_places.filter _
  have hmem : place ∈ unexplored explored g.places := mem_unexplored_iff.mpr ⟨hplace, hnew⟩
  have hperm := (List.perm_cons_erase hmem).flatMap_right f
  rw [unexplored_cons, ← hnodup.erase_eq_filter, hperm.length_eq, List.flatMap_cons,
    List.length_append, Nat.add_comm]

theorem IsUnderway.work_lt (h : x.IsUnderway g) (hround : Round g x y) : y.work g < x.work g := by
  obtain ⟨before, place, after, hpending, hcase⟩ := hround.exists_place
  have hplace : place ∈ g.places := h.mem_places hpending
  have hlength : x.pending.length = (before ++ after).length + 1 := by
    rw [hpending, List.length_append, List.length_cons, List.length_append, Nat.add_assoc]
  obtain ⟨hold, rfl⟩ | ⟨hnew, rfl⟩ := hcase
  · rw [work, work, hlength]
    dsimp only
    omega
  · rw [work, work, hlength,
      ← length_flatMap_unexplored_add (fun p => g.continuations p.1 p.2) hplace hnew]
    have hfound : (unexplored (place :: x.explored)
        ((g.continuations place.1 place.2).map Continuation.place)).length ≤
          (g.continuations place.1 place.2).length :=
      Nat.le_trans (List.length_filter_le _ _) (Nat.le_of_eq (List.length_map _))
    dsimp only
    rw [List.length_append, List.length_reverse]
    omega

/-- Each round takes work off, so there are no more rounds than there was work. -/
theorem Rounds.add_work_le (hg : g.IsClosed) (hrounds : Rounds g n x y) (h : x.IsUnderway g) :
    n + y.work g ≤ x.work g := by
  induction hrounds with
  | done => omega
  | more first _ ih =>
    have hless := h.work_lt first
    have hrest := ih (h.round hg first)
    omega

theorem work_start (g : Grammar) :
    (start g).work g =
      g.places.length + (g.places.flatMap fun p => g.continuations p.1 p.2).length := by
  have hall : unexplored (start g).explored g.places = g.places := by simp [start, unexplored]
  rw [work, hall]
  simp [start]

-- ════════════════════════════════════════════════════════════════════════
-- Running
-- ════════════════════════════════════════════════════════════════════════

theorem run_of_pending_eq_nil (h : x.pending = []) : run g x = x := by
  rw [run]
  split
  · rfl
  · next heq =>
    rw [h] at heq
    cases heq

theorem run_of_pending_eq_cons {rest : List Place} (h : x.pending = place :: rest) :
    run g x = run g (visit g { x with pending := rest } place) := by
  rw [run]
  split
  · next heq =>
    rw [h] at heq
    cases heq
  · next heq =>
    rw [h] at heq
    cases heq
    rfl

/-- Running is a number of rounds that each look at the first of the pending places, until none is
    pending. -/
theorem exists_rounds_run (g : Grammar) (x : Exploration) :
    ∃ n, Rounds g n x (run g x) ∧ (run g x).pending = [] := by
  induction x using run.induct g with
  | case1 x hpending =>
    rw [run_of_pending_eq_nil hpending]
    exact ⟨0, .done x, hpending⟩
  | case2 x place rest hpending ih =>
    obtain ⟨n, hrounds, hend⟩ := ih
    have hround : Round g x (visit g { x with pending := rest } place) :=
      @Round.look g x [] rest place hpending
    rw [run_of_pending_eq_cons hpending]
    exact ⟨n + 1, .more hround hrounds, hend⟩

end Exploration

namespace Paradigm

/-- The paradigm has one cell for each state of a grammar in each context, its continuations lead
    from cell to cell, and they are the forms in the order of the grammar, each as it is spelled in
    the context and then with its final stop voiced if that can be done. -/
structure IsProductOf (p : Paradigm) (g : Grammar) : Prop where
  nodup : (p.cells.map Cell.place).Nodup
  mem_iff : ∀ s context, (s, context) ∈ p.cells.map Cell.place ↔
    s ∈ g.stateIds ∧ context ∈ Phonetics.contexts
  closed : ∀ c ∈ p.cells, ∀ w ∈ c.continuations, w.place ∈ p.cells.map Cell.place
  listed : ∀ c ∈ p.cells, c.continuations =
    (g.edgesFrom c.state).flatMap fun e => (g.suffix e.suffix).forms.flatMap fun id =>
      let plain := (g.form id).template.resolve c.attributes
      ⟨⟨id, e.suffix, plain, plain, none⟩, e.target, Phonetics.after c.attributes plain⟩ ::
        ((voicedVariant? plain).map fun text => ⟨⟨id, e.suffix, text, plain, some .vowelStart⟩,
          e.target, Phonetics.after c.attributes text⟩).toList
  size : p.size = (p.cells.flatMap Cell.continuations).length

end Paradigm

/-- In a context every form is listed, and nothing but its spellings. -/
theorem Grammar.continuations_eq_of_mem_contexts (g : Grammar) (s : StateId)
    {context : PhoneticAttributes} (h : context ∈ Phonetics.contexts) :
    g.continuations s context =
      (g.edgesFrom s).flatMap fun e => (g.suffix e.suffix).forms.flatMap fun id =>
        let plain := (g.form id).template.resolve context
        ⟨⟨id, e.suffix, plain, plain, none⟩, e.target, Phonetics.after context plain⟩ ::
          ((voicedVariant? plain).map fun text => ⟨⟨id, e.suffix, text, plain, some .vowelStart⟩,
            e.target, Phonetics.after context text⟩).toList := by
  rw [continuations]
  congr 1
  funext e
  rw [continuationsAlong, List.map_flatMap]
  congr 1
  funext id
  rw [realizations, if_pos (Template.isApplicable_of_mem_contexts _ h)]
  simp only [List.map_cons]
  congr 1
  cases voicedVariant? ((g.form id).template.resolve context) <;> rfl

namespace Exploration

variable {g : Grammar} {x y : Exploration} {n : Nat}

/-- When nothing is pending any more, the places looked at are all there are. -/
theorem IsUnderway.isProductOf (hg : g.IsClosed) (h : x.IsUnderway g) (hend : x.pending = []) :
    x.paradigm.IsProductOf g := by
  have hmem : ∀ p, p ∈ x.cells.map Cell.place ↔ p ∈ g.places := by
    intro p
    rw [h.explored, ← h.inside p, hend]
    simp
  have hplace : ∀ c ∈ x.cells, c.place ∈ g.places :=
    fun c hc => (hmem _).mp (List.mem_map_of_mem hc)
  refine ⟨h.explored ▸ h.nodup, fun s context => ?_, fun c hc w hw => ?_, fun c hc => ?_, h.size⟩
  · exact (hmem _).trans Grammar.mem_places_iff
  · rw [h.cells c hc] at hw
    exact (hmem _).mpr (hg.place_mem_places (hplace c hc) hw)
  · rw [h.cells c hc]
    exact g.continuations_eq_of_mem_contexts _ (Grammar.mem_places_iff.mp (hplace c hc)).2

end Exploration

namespace Paradigm

variable {g : Grammar} {s : StateId} {context : PhoneticAttributes} {cell : Cell}

/-- What the exploration of a closed grammar comes to when it is run. -/
theorem isUnderway_run (hg : g.IsClosed) :
    ((Exploration.start g).run g).IsUnderway g ∧ ((Exploration.start g).run g).pending = [] := by
  obtain ⟨n, hrounds, hend⟩ := Exploration.exists_rounds_run g (.start g)
  exact ⟨(Exploration.isUnderway_start g).rounds hg hrounds, hend⟩

/-- The exploration of a closed grammar ends after boundedly many rounds, whichever of the pending
    places each of them looks at, and what it comes to is the product of the states and the
    contexts. So it is for the order in which the paradigm is made. No text that a template could
    stand for leads out of the contexts. -/
theorem isProductOf_of_exploration (hg : g.IsClosed) :
    (∀ n x, Exploration.Rounds g n (.start g) x →
      n ≤ g.places.length + (g.places.flatMap fun p => g.continuations p.1 p.2).length) ∧
    (∀ n x, Exploration.Rounds g n (.start g) x → x.pending = [] → x.paradigm.IsProductOf g) ∧
    (∃ n x, Exploration.Rounds g n (.start g) x ∧ x.pending = [] ∧ ofGrammar g = x.paradigm) ∧
    (ofGrammar g).IsProductOf g ∧
    ∀ context ∈ Phonetics.contexts, ∀ text,
      Phonetics.after context text ∈ Phonetics.contexts := by
  have hstart := Exploration.isUnderway_start g
  obtain ⟨hrun, hend⟩ := isUnderway_run hg
  obtain ⟨n, hrounds, -⟩ := Exploration.exists_rounds_run g (.start g)
  refine ⟨fun m y hmore => ?_, fun m y hmore => ?_, ⟨n, _, hrounds, hend, rfl⟩, ?_, ?_⟩
  · have hwork := hmore.add_work_le hg hstart
    rw [Exploration.work_start] at hwork
    omega
  · exact (hstart.rounds hg hmore).isProductOf hg
  · exact hrun.isProductOf hg hend
  · exact fun context hcontext => Phonetics.after_mem_contexts hcontext

/-- The exploration of the tables of Turkish. -/
theorem isProductOf_turkish :
    Turkish.grammar.IsClosed ∧ Turkish.paradigm.IsProductOf Turkish.grammar :=
  ⟨Turkish.isClosed, (isProductOf_of_exploration Turkish.isClosed).2.2.2.1⟩

/-- The paradigm of a closed grammar has a cell for each state in each context, with the
    continuations of that state in that context. -/
theorem cell?_ofGrammar_eq_some_iff (hg : g.IsClosed) :
    (ofGrammar g).cell? s context = some cell ↔
      s ∈ g.stateIds ∧ context ∈ Phonetics.contexts ∧
        cell = ⟨s, context, g.continuations s context⟩ := by
  obtain ⟨hx, hend⟩ := isUnderway_run hg
  rw [ofGrammar]
  generalize (Exploration.start g).run g = x at hx hend ⊢
  have hcell : ∀ c ∈ x.cells, c.state = s → c.attributes = context →
      c = ⟨s, context, g.continuations s context⟩ := by
    rintro ⟨t, a, ways⟩ hc rfl rfl
    rw [← hx.cells _ hc]
  have hmem : s ∈ g.stateIds ∧ context ∈ Phonetics.contexts ↔
      (s, context) ∈ x.cells.map Cell.place :=
    ((hx.isProductOf hg hend).mem_iff s context).symm
  rw [← and_assoc, hmem]
  constructor
  · intro h
    have hfound := List.find?_some h
    have hin := List.mem_of_find?_eq_some h
    obtain ⟨rfl, rfl⟩ : cell.state = s ∧ cell.attributes = context := by simpa using hfound
    exact ⟨List.mem_map_of_mem hin, hcell cell hin rfl rfl⟩
  · rintro ⟨hplace, rfl⟩
    obtain ⟨c, hc, heq⟩ := List.mem_map.mp hplace
    obtain ⟨found, hfound⟩ : ∃ found, x.paradigm.cell? s context = some found := by
      rw [← Option.isSome_iff_exists, cell?, List.find?_isSome]
      exact ⟨c, hc, by simpa [Cell.place] using heq⟩
    have hin := List.mem_of_find?_eq_some hfound
    obtain ⟨hs, ha⟩ : found.state = s ∧ found.attributes = context := by
      simpa using List.find?_some hfound
    rw [hfound, hcell found hin hs ha]

end Paradigm

end TurkishMorphology
