import TurkishMorphology.Text.CodeRange
/-!
# White space

The characters of the Unicode property White_Space. This is wider than the space characters of
`Char.isWhitespace`: it includes the vertical tab, the form feed, the next-line control and the
spaces of various widths, but not the zero-width space.

## Main definitions

- `isSpace` — the property on characters
-/

namespace TurkishMorphology.Text

/-- The code points with the property White_Space. -/
def spaceTable : List CodeRange := [
  ⟨0x9, 0xD, 1⟩, ⟨0x20, 0x20, 1⟩, ⟨0x85, 0x85, 1⟩, ⟨0xA0, 0xA0, 1⟩, ⟨0x1680, 0x1680, 1⟩,
  ⟨0x2000, 0x200A, 1⟩, ⟨0x2028, 0x2029, 1⟩, ⟨0x202F, 0x202F, 1⟩, ⟨0x205F, 0x205F, 1⟩,
  ⟨0x3000, 0x3000, 1⟩]

/-- Whether the character has the property White_Space. -/
def isSpace (c : Char) : Bool := CodeRange.covers spaceTable c.toNat

end TurkishMorphology.Text
