/-!
# Tables of code points

A property of characters is kept as a table of code point ranges in increasing order. Looking a
character up walks the table and stops at the first range that begins after it, so letters of the
common scripts are found within a few entries.

## Main definitions

- `CodeRange` — every `stride`-th code point from `first` to `last`
- `CodeRange.covering?` — the range of a table that holds a code point
-/

namespace TurkishMorphology.Text

/-- The code points `first`, `first + stride`, … up to `last`. -/
structure CodeRange where
  first : Nat
  last : Nat
  stride : Nat := 1

/-- Whether the code point is one of the range. -/
def CodeRange.holds (r : CodeRange) (n : Nat) : Bool :=
  r.first ≤ n && n ≤ r.last && (n - r.first) % r.stride == 0

/-- The range of an increasing table that holds `n`, if there is one. -/
def CodeRange.covering? : List CodeRange → Nat → Option CodeRange
  | [], _ => none
  | r :: rs, n =>
    if n < r.first then none
    else if n ≤ r.last then if r.holds n then some r else none
    else covering? rs n

/-- Whether some range of an increasing table holds `n`. -/
def CodeRange.covers (table : List CodeRange) (n : Nat) : Bool :=
  (CodeRange.covering? table n).isSome

theorem CodeRange.mem_of_covering? {table : List CodeRange} {n : Nat} {r : CodeRange}
    (h : CodeRange.covering? table n = some r) : r ∈ table ∧ r.holds n = true := by
  induction table with
  | nil => simp [covering?] at h
  | cons s rs ih =>
    rw [covering?] at h
    split at h
    · cases h
    · split at h
      · split at h
        · cases h
          exact ⟨List.mem_cons_self, by assumption⟩
        · cases h
      · exact ⟨List.mem_cons_of_mem _ (ih h).1, (ih h).2⟩

end TurkishMorphology.Text
