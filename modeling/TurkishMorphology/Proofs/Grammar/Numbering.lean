import Mathlib.Data.List.Basic
/-!
# Numbers and names

Things are added one after the other. Each gets the next number, is stored at it, and may be found
by its name in an index.

## Main definitions

- `IsNumbered` — what was added, with its numbers, and where it is stored
- `IsIndexed` — what was added, and the index of its names

## Main statements

- `IsNumbered.push`, `IsIndexed.push` — one thing more
- `IsNumbered.map_snd`, `IsNumbered.view_getD` — the numbers, and what is stored at them
- `IsIndexed.isSome_lookup_iff`, `IsIndexed.lookup_eq_some_iff` — the names that are found, and the
  numbers that they lead to
-/

namespace TurkishMorphology

section Tables

variable {α β ι : Type} {mk : Nat → ι} {view : β → α} {name : α → String} {added : List (α × ι)}
  {stored : Array β} {index : List (String × ι)} {a : α} {id : ι}

/-- What was added got the numbers from zero on, and is stored in that order, seen in the given
    way. -/
def IsNumbered (mk : Nat → ι) (view : β → α) (added : List (α × ι)) (stored : Array β) : Prop :=
  added = stored.toList.zipIdx.map fun p => (view p.1, mk p.2)

/-- The index finds what was added, by name, and nothing else. -/
def IsIndexed (name : α → String) (added : List (α × ι)) (index : List (String × ι)) : Prop :=
  ∀ n id, index.lookup n = some id ↔ ∃ a, (a, id) ∈ added ∧ name a = n

namespace IsNumbered

theorem push (h : IsNumbered mk view added stored) (b : β) :
    IsNumbered mk view (added ++ [(view b, mk stored.size)]) (stored.push b) := by
  rw [IsNumbered, h, Array.toList_push, List.zipIdx_append, List.map_append, Nat.zero_add]
  rfl

/-- A change that is not seen. -/
theorem modify (h : IsNumbered mk view added stored) (i : Nat) {f : β → β}
    (hf : ∀ b, view (f b) = view b) : IsNumbered mk view added (stored.modify i f) := by
  rw [IsNumbered, h]
  refine List.ext_getElem? fun n => ?_
  simp only [List.getElem?_map, List.getElem?_zipIdx, Array.getElem?_toList, Array.getElem?_modify]
  cases stored[n]? <;> by_cases hi : i = n <;> simp [hi, hf]

theorem map_snd (h : IsNumbered mk view added stored) :
    added.map Prod.snd = (List.range stored.size).map mk := by
  rw [h, List.map_map, List.range_eq_range', ← Array.length_toList,
    ← List.zipIdx_map_snd 0 stored.toList, List.map_map]
  rfl

/-- The numbers that were given out are those at which something is stored. -/
theorem mem_map_snd_iff (h : IsNumbered mk view added stored) :
    id ∈ added.map Prod.snd ↔ ∃ n, n < stored.size ∧ mk n = id := by
  simp only [h.map_snd, List.mem_map, List.mem_range]

theorem exists_of_mem (h : IsNumbered mk view added stored) {p : α × ι} (hp : p ∈ added) :
    ∃ n b, stored[n]? = some b ∧ p = (view b, mk n) := by
  rw [h] at hp
  obtain ⟨⟨b, n⟩, hmem, rfl⟩ := List.mem_map.mp hp
  exact ⟨n, b, by simpa using List.mem_zipIdx_iff_getElem?.mp hmem, rfl⟩

/-- What is stored at a number is what got it. -/
theorem view_getD (h : IsNumbered mk view added stored) (position : ι → Nat)
    (hposition : ∀ n, position (mk n) = n) (default : β) {p : α × ι} (hp : p ∈ added) :
    view (stored.getD (position p.2) default) = p.1 := by
  obtain ⟨n, b, hb, rfl⟩ := h.exists_of_mem hp
  rw [hposition, Array.getD_eq_getD_getElem?, hb]
  rfl

end IsNumbered

namespace IsIndexed

theorem empty : IsIndexed name ([] : List (α × ι)) [] := by
  intro n id
  simp

theorem lookup_eq_none_iff (h : IsIndexed name added index) {n : String} :
    index.lookup n = none ↔ ∀ p ∈ added, name p.1 ≠ n := by
  constructor
  · rintro hnone ⟨a, id⟩ hmem heq
    have hsome := (h n id).mpr ⟨a, hmem, heq⟩
    rw [hnone] at hsome
    cases hsome
  · intro hnew
    rw [Option.eq_none_iff_forall_ne_some]
    intro id hid
    obtain ⟨a, hmem, heq⟩ := (h n id).mp hid
    exact hnew _ hmem heq

theorem isSome_lookup_iff (h : IsIndexed name added index) {n : String} :
    (index.lookup n).isSome = true ↔ ∃ p ∈ added, name p.1 = n := by
  rw [Option.isSome_iff_ne_none, ne_eq, h.lookup_eq_none_iff]
  simp

/-- A name leads to the number at which it is stored. -/
theorem lookup_eq_some_iff (h : IsIndexed name added index) (nameAt : ι → String) {n : String}
    (hname : ∀ p ∈ added, nameAt p.2 = name p.1) :
    index.lookup n = some id ↔ id ∈ added.map Prod.snd ∧ nameAt id = n := by
  rw [h n id]
  constructor
  · rintro ⟨a, hmem, rfl⟩
    exact ⟨List.mem_map_of_mem hmem, hname _ hmem⟩
  · rintro ⟨hid, rfl⟩
    obtain ⟨p, hmem, rfl⟩ := List.mem_map.mp hid
    exact ⟨p.1, hmem, (hname p hmem).symm⟩

/-- What has a new name is added to what was added, and its name to the index. -/
theorem push (h : IsIndexed name added index) (hnew : index.lookup (name a) = none) (id : ι) :
    IsIndexed name (added ++ [(a, id)]) ((name a, id) :: index) := by
  intro n i
  simp only [List.mem_append, List.mem_singleton, or_and_right, exists_or]
  by_cases hn : n = name a
  · subst hn
    have hold : ¬ ∃ b, (b, i) ∈ added ∧ name b = name a := by
      rintro ⟨b, hmem, heq⟩
      exact h.lookup_eq_none_iff.mp hnew _ hmem heq
    rw [List.lookup_cons_self]
    constructor
    · intro hi
      obtain rfl := Option.some_inj.mp hi
      exact .inr ⟨a, rfl, rfl⟩
    · rintro (hfound | ⟨b, heq, -⟩)
      · exact absurd hfound hold
      · rw [(Prod.mk.inj heq).2]
  · have hlast : ¬ ∃ b, (b, i) = (a, id) ∧ name b = n := by
      rintro ⟨b, heq, hname⟩
      rw [(Prod.mk.inj heq).1] at hname
      exact hn hname.symm
    rw [List.lookup_cons, beq_eq_false_iff_ne.mpr hn, or_iff_left hlast]
    exact h n i

end IsIndexed

end Tables

end TurkishMorphology
