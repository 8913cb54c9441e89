import TurkishMorphology.Grammar.Basic
import TurkishMorphology.Phonetics.Validity
/-!
# Paradigms

The paradigm of a grammar lists, for each state and each phonetic context, the continuations: the
forms that can follow, already spelled out, and where they lead. A form that ends in a stop that
can be voiced has a second continuation with that stop voiced (`acak` and `acağ`), which expects a
vowel after it.

## Main definitions

- `Realization` — a form spelled out in a context
- `Continuation`, `Cell`, `Paradigm` — a way on, the ways on from one place, and all of them
- `Exploration` — the search for the places that can be reached
- `Paradigm.ofGrammar` — the paradigm of a grammar
- `Paradigm.cell?` — the cell of a state in a context

## Design notes

All states in all contexts are places to start from, and the exploration goes on to the places
that their continuations lead to. It comes to an end since edges lead to finitely many places; which
ones it finds is another matter, as a grammar is cyclic and the contexts are computed.
-/

namespace TurkishMorphology

/-- A form spelled out in a phonetic context. -/
structure Realization where
  form : FormId
  suffix : SuffixId
  /-- What is added to the word. -/
  text : Word
  /-- What the template stands for; differs from `text` when the final stop is voiced. -/
  plain : Word
  /-- What the realization asks of the next suffix that adds letters. -/
  awaits : Option PhoneticExpectation := none
deriving DecidableEq, Inhabited

/-- Whether the realization adds nothing visible. -/
def Realization.isBlank (r : Realization) : Bool := r.text.isBlank

/-- A realization and where it leads. -/
structure Continuation where
  realization : Realization
  target : StateId
  /-- The phonetic attributes of the word with the realization added. -/
  attributes : PhoneticAttributes
deriving DecidableEq, Inhabited

/-- The ways on from a state in a phonetic context. -/
structure Cell where
  state : StateId
  attributes : PhoneticAttributes
  continuations : List Continuation
deriving DecidableEq, Inhabited

/-- A state in a phonetic context. -/
abbrev Place := StateId × PhoneticAttributes

def Cell.place (c : Cell) : Place := (c.state, c.attributes)

/-- Where the continuation leads. -/
def Continuation.place (w : Continuation) : Place := (w.target, w.attributes)

/-- The cells of all states in all phonetic contexts. -/
structure Paradigm where
  cells : List Cell
  /-- How many continuations the cells have. -/
  size : Nat
deriving DecidableEq, Inhabited

/-- A text with its final stop voiced. A text without a vowel keeps its stop. -/
def voicedVariant? (text : Word) : Option Word :=
  if text.isBlank || !text.hasVowel then none
  else (text.getLast?.bind Alphabet.voice?).map text.withLast

namespace Grammar

/-- The realizations of a form in a context, the plain one first. -/
def realizations (g : Grammar) (a : PhoneticAttributes) (suffix : SuffixId) (id : FormId) :
    List Realization :=
  let t := (g.form id).template
  if t.isApplicable a then
    let plain := t.resolve a
    ⟨id, suffix, plain, plain, none⟩ ::
      ((voicedVariant? plain).map fun text => ⟨id, suffix, text, plain, some .vowelStart⟩).toList
  else []

def continuationsAlong (g : Grammar) (a : PhoneticAttributes) (e : Edge) : List Continuation :=
  ((g.suffix e.suffix).forms.flatMap (g.realizations a e.suffix)).map fun r =>
    ⟨r, e.target, Phonetics.after a r.text⟩

def continuations (g : Grammar) (s : StateId) (a : PhoneticAttributes) : List Continuation :=
  (g.edgesFrom s).flatMap (g.continuationsAlong a)

/-- The places that edges lead to, whatever the attributes. -/
noncomputable def targets (g : Grammar) : List Place :=
  g.edges.flatMap fun e => FlagSet.all.map fun a => (e.target, a)

theorem place_mem_targets {g : Grammar} {s : StateId} {a : PhoneticAttributes} {w : Continuation}
    (h : w ∈ g.continuations s a) : w.place ∈ g.targets := by
  obtain ⟨e, he, hw⟩ := List.mem_flatMap.mp h
  obtain ⟨r, -, rfl⟩ := List.mem_map.mp hw
  exact List.mem_flatMap.mpr
    ⟨e, (mem_edgesFrom_iff.mp he).1, List.mem_map.mpr ⟨_, FlagSet.mem_all _, rfl⟩⟩

/-- The states in all contexts. -/
def places (g : Grammar) : List Place :=
  g.stateIds.flatMap fun s => Phonetics.contexts.map fun a => (s, a)

end Grammar

/-- The cells made so far, and the places still to be looked at, the next one first. -/
structure Exploration where
  pending : List Place
  explored : List Place := []
  cells : List Cell := []
  size : Nat := 0
deriving DecidableEq, Inhabited

namespace Exploration

/-- The last state in the last context comes first. -/
def start (g : Grammar) : Exploration := { pending := g.places.reverse }

/-- Those of the places that were not looked at. -/
def unexplored (explored places : List Place) : List Place :=
  places.filter fun p => !explored.contains p

/-- Makes the cell of a place, unless it was made before. The places that the cell leads to are
    the next to be looked at, the last of them first. -/
def visit (g : Grammar) (x : Exploration) (place : Place) : Exploration :=
  if place ∈ x.explored then x
  else
    let explored := place :: x.explored
    let continuations := g.continuations place.1 place.2
    { pending := (unexplored explored (continuations.map Continuation.place)).reverse ++ x.pending
      explored
      cells := ⟨place.1, place.2, continuations⟩ :: x.cells
      size := x.size + continuations.length }

theorem mem_unexplored_iff {explored places : List Place} {p : Place} :
    p ∈ unexplored explored places ↔ p ∈ places ∧ p ∉ explored := by
  simp [unexplored]

theorem unexplored_cons (place : Place) (explored places : List Place) :
    unexplored (place :: explored) places =
      (unexplored explored places).filter fun p => p != place := by
  rw [unexplored, unexplored, List.filter_filter]
  refine List.filter_congr fun p _ => ?_
  by_cases hp : p = place <;> simp [hp]

/-- What gets less with every place looked at: the places that edges lead to and that are not
    explored, the pending places that no edge leads to, and the pending places. -/
noncomputable def rank (g : Grammar) (x : Exploration) : Nat × Nat × Nat :=
  ((unexplored x.explored g.targets).length,
    (x.pending.filter fun p => !g.targets.contains p).length,
    x.pending.length)

/-- Looking at the next place lowers the rank. -/
theorem rank_visit_lt (g : Grammar) {x : Exploration} {place : Place} {rest : List Place}
    (h : x.pending = place :: rest) :
    Prod.Lex (· < ·) (Prod.Lex (· < ·) (· < ·))
      (rank g (visit g { x with pending := rest } place)) (rank g x) := by
  rw [visit]
  split
  · -- There is one pending place less.
    rw [rank, rank, h, List.filter_cons]
    refine .right _ ?_
    split
    · exact .left _ _ (Nat.lt_succ_self _)
    · exact .right _ (Nat.lt_succ_self _)
  · next hnew =>
    by_cases hplace : place ∈ g.targets
    · -- The place is explored then, and an edge leads to it.
      refine .left _ _ ?_
      rw [unexplored_cons, List.length_filter_lt_length_iff_exists]
      exact ⟨place, mem_unexplored_iff.mpr ⟨hplace, hnew⟩, by simp⟩
    · -- No edge leads to the place itself, but edges lead to all that is found.
      have hsame : unexplored (place :: x.explored) g.targets =
          unexplored x.explored g.targets := by
        rw [unexplored_cons, List.filter_eq_self]
        intro p hp
        have hne : p ≠ place := fun heq => hplace (heq ▸ (mem_unexplored_iff.mp hp).1)
        exact bne_iff_ne.mpr hne
      have hnone : ∀ p ∈ (unexplored (place :: x.explored)
          ((g.continuations place.1 place.2).map Continuation.place)).reverse,
            ¬ (!g.targets.contains p) = true := by
        intro p hp
        obtain ⟨hfound, -⟩ := mem_unexplored_iff.mp (List.mem_reverse.mp hp)
        obtain ⟨w, hw, rfl⟩ := List.mem_map.mp hfound
        simpa using Grammar.place_mem_targets hw
      rw [rank, rank, h, List.filter_append, List.filter_eq_nil_iff.mpr hnone, hsame,
        List.filter_cons_of_pos (by simpa using hplace)]
      exact .right _ (.left _ _ (Nat.lt_succ_self _))

/-- Looks at places until none is pending. -/
def run (g : Grammar) (x : Exploration) : Exploration :=
  match _h : x.pending with
  | [] => x
  | place :: rest => run g (visit g { x with pending := rest } place)
termination_by rank g x
decreasing_by exact rank_visit_lt g _h

def paradigm (x : Exploration) : Paradigm := ⟨x.cells, x.size⟩

end Exploration

namespace Paradigm

def ofGrammar (g : Grammar) : Paradigm :=
  ((Exploration.start g).run g).paradigm

def cell? (p : Paradigm) (s : StateId) (a : PhoneticAttributes) : Option Cell :=
  p.cells.find? fun c => c.state = s ∧ c.attributes = a

end Paradigm

end TurkishMorphology
