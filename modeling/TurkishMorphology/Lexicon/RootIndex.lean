import TurkishMorphology.Lexicon.Stem
import Std.Data.HashMap
/-!
# The index of roots

All roots of a lexicon by their spelling. Roots with the same spelling are kept in the order in
which they were added, and equal roots are kept once.

## Main definitions

- `RootIndex` — the index
- `RootIndex.insert`, `RootIndex.get`, `RootIndex.contains`, `RootIndex.size`, `RootIndex.toList`
- `RootIndex.ofRoots`, `RootIndex.ofLexemes` — an index of given roots, or of all roots of lexemes
-/

namespace TurkishMorphology

/-- How an index is made from lexemes. -/
structure LexiconOptions where
  /-- Whether roots with circumflexes are also indexed without them. -/
  circumflexFree : Bool := false
deriving DecidableEq, Repr, Inhabited

/-- Roots by their spelling. -/
structure RootIndex where
  buckets : Std.HashMap Word (List Root) := {}
  size : Nat := 0

namespace RootIndex

def empty : RootIndex := {}

instance : Inhabited RootIndex := ⟨empty⟩

/-- The roots with exactly the given spelling, in the order in which they were added. -/
def get (m : RootIndex) (surface : Word) : List Root := (m.buckets[surface]?).getD []

def contains (m : RootIndex) (surface : Word) : Bool := m.buckets.contains surface

/-- Adds a root, unless an equal one is there already. -/
def insert (m : RootIndex) (r : Root) : RootIndex :=
  let bucket := m.get r.surface
  if bucket.contains r then m
  else { buckets := m.buckets.insert r.surface (bucket ++ [r]), size := m.size + 1 }

def isEmpty (m : RootIndex) : Bool := m.size == 0

/-- Every root, in no particular order. -/
def toList (m : RootIndex) : List Root := m.buckets.toList.flatMap (·.2)

def ofRoots (rs : List Root) : RootIndex := rs.foldl insert empty

def rootsOf (options : LexiconOptions) (l : Lexeme) : Except LexiconError (List Root) :=
  if options.circumflexFree then l.rootsWithPlain else l.roots

/-- The index of all roots of the lexemes; the first lexeme without roots is an error. -/
def ofLexemes (options : LexiconOptions) (ls : List Lexeme) : Except LexiconError RootIndex := do
  let rs ← ls.mapM (rootsOf options)
  return ofRoots rs.flatten

@[simp]
theorem get_empty (s : Word) : empty.get s = [] := by simp [get, empty]

theorem get_insert (m : RootIndex) (r : Root) (s : Word) :
    (m.insert r).get s =
      if s = r.surface ∧ r ∉ m.get s then m.get s ++ [r] else m.get s := by
  unfold insert
  by_cases hr : r ∈ m.get r.surface
  · have hc : (m.get r.surface).contains r = true := List.contains_iff_mem.mpr hr
    simp only [hc, if_true]
    split
    · next h => exact absurd (h.1 ▸ hr) h.2
    · rfl
  · have hc : (m.get r.surface).contains r = false := by
      simpa using hr
    simp only [hc, Bool.false_eq_true, if_false]
    by_cases hs : s = r.surface
    · subst hs
      simp [get] at hr ⊢
      simp [hr]
    · have hne : ¬ r.surface = s := fun h => hs h.symm
      simp [get, Std.HashMap.getElem?_insert, hne, hs]

end RootIndex

end TurkishMorphology
