import TurkishMorphology.Lexicon.Entry
import TurkishMorphology.Proofs.Result
/-!
# What an item says

The text between the brackets of a line consists of items, and each item of a key and what it says.
There are three keys, one for the parts of speech, one for attributes and one for the actual root.
Here it is said once what an item of each kind needs and what it leaves behind.

## Main definitions

- `Metadata.keyed?`, `Metadata.value?` — the key of an item and what it says
- `Metadata.valuesOf` — what all items with a given key say
- `Metadata.tagsOf`, `Metadata.primaryTag`, `Metadata.secondaryTag?` — the tags of an item

## Main statements

- `Metadata.addPartsOfSpeech_eq_ok_iff`, `Metadata.addAttribute_eq_ok_iff` — tags
- `Metadata.addItem_eq_ok_iff` — the three kinds of items
-/

namespace TurkishMorphology

/-- The pieces of a text are those between its separators. -/
theorem Word.pieces_eq_splitOn (separator : Char) (w : Word) :
    w.pieces separator = w.splitOn separator := by
  induction w with
  | nil => rfl
  | cons c cs ih =>
    rw [List.splitOn_cons_eq_if_modifyHead, pieces, ih]
    split
    · rfl
    · cases hrest : cs.splitOn separator with
      | nil => exact absurd hrest (List.splitOn_ne_nil separator cs)
      | cons p ps => rfl

namespace Metadata

variable {m m' : Metadata} {line : Nat} {key value item : Word}

/-- The key of an item and what it says. -/
def keyed? (item : Word) : Option (Word × Word) :=
  (item.splitOnce? ':').map fun parts => (Word.trim parts.1, Word.trim parts.2)

/-- What an item with the given key says. -/
def value? (key item : Word) : Option Word :=
  (keyed? item).bind fun keyed => if keyed.1 = key then some keyed.2 else none

/-- What is said between the brackets with a given key. -/
def valuesOf (key text : Word) : List Word :=
  ((text.splitOn ';').map Word.trim).filterMap (value? key)

/-- The tags of an item. -/
def tagsOf (value : Word) : List Word := (value.splitOn ',').map Word.trim

/-- The tag in the place of the primary part of speech. -/
def primaryTag (value : Word) : Word := (tagsOf value).headD []

/-- The tag in the place of the secondary part of speech, if it is given. -/
def secondaryTag? (value : Word) : Option Word := (tagsOf value)[1]?

theorem tags_eq_tagsOf (value : Word) : tags value = tagsOf value := by
  rw [tags, tagsOf, Word.pieces_eq_splitOn]

theorem value?_of_keyed? (h : keyed? item = some (key, value)) (k : Word) :
    value? k item = if key = k then some value else none := by
  rw [value?, h]
  rfl

theorem keyed?_of_value? (h : value? key item = some value) : keyed? item = some (key, value) := by
  obtain ⟨⟨k, v⟩, hkeyed, h⟩ := Option.bind_eq_some_iff.mp h
  split at h
  · next hk =>
    cases h
    rw [hkeyed, ← hk]
  · cases h

/-- The parts of speech are put in their places; no place is left to the tags after the second. -/
theorem addPartsOfSpeech_eq_ok_iff : addPartsOfSpeech line m value = .ok m' ↔
    (∃ pos, PrimaryPos.ofTag? (primaryTag value).text = some pos) ∧
    (∀ tag, secondaryTag? value = some tag →
      ∃ secondary, SecondaryPos.ofTag? tag.text = some secondary) ∧
    m' = { m with
      pos := PrimaryPos.ofTag? (primaryTag value).text
      secondary := (secondaryTag? value).elim m.secondary fun tag =>
        SecondaryPos.ofTag? tag.text } := by
  unfold addPartsOfSpeech
  dsimp only
  rw [tags_eq_tagsOf, ← primaryTag, ← secondaryTag?]
  cases hprimary : PrimaryPos.ofTag? (primaryTag value).text with
  | none => simp [throw, throwThe, MonadExceptOf.throw]
  | some pos =>
    cases hsecond : secondaryTag? value with
    | none => simp [pure, Except.pure, eq_comm]
    | some tag =>
      cases hsecondary : SecondaryPos.ofTag? tag.text with
      | none => simp [hsecondary, throw, throwThe, MonadExceptOf.throw]
      | some secondary => simp [hsecondary, pure, Except.pure, eq_comm]

/-- An attribute joins those that are there. -/
theorem addAttribute_eq_ok_iff {tag : Word} : addAttribute line m tag = .ok m' ↔
    ∃ a, LexemeAttribute.ofTag? tag.text = some a ∧
      m' = { m with attributes := m.attributes.insert a } := by
  unfold addAttribute
  cases LexemeAttribute.ofTag? tag.text with
  | none => simp
  | some a => simp [eq_comm]

/-- An item is of one of three kinds. -/
theorem addItem_eq_ok_iff : addItem line m item = .ok m' ↔ ∃ value,
    keyed? item = some (['P'], value) ∧ addPartsOfSpeech line m value = .ok m' ∨
    keyed? item = some (['A'], value) ∧
      ((tagsOf value).filter fun t => !t.isEmpty).foldlM (addAttribute line) m = .ok m' ∨
    keyed? item = some (['R'], value) ∧ m' = { m with actualRoot := some value } := by
  unfold addItem keyed?
  simp only [tags_eq_tagsOf]
  cases item.splitOnce? ':' with
  | none => simp
  | some parts =>
    obtain ⟨k, v⟩ := parts
    simp only [Option.map_some, Option.some.injEq, Prod.mk.injEq]
    split
    · next hk => simp [hk]
    · next hk => simp [hk]
    · next hk => simp [hk, eq_comm]
    · next hP hA hR =>
      refine iff_of_false (fun h => by cases h) ?_
      rintro ⟨_, ⟨⟨hk, -⟩, -⟩ | ⟨⟨hk, -⟩, -⟩ | ⟨⟨hk, -⟩, -⟩⟩
      · exact hP hk
      · exact hA hk
      · exact hR hk

end Metadata

end TurkishMorphology
