import TurkishMorphology.Proofs.Lexicon.Closure
import Mathlib.Data.List.Induction
/-!
# What becomes of the tags of a line

Every item between the brackets is read, and an item with a tag that names nothing is refused. A
part of speech is one of two places, though, and an actual root another one: a later item puts
something else in the same place. Attributes are collected.

## Main definitions

- `Entry.valuesOf` — what the items of a line with a given key say
- `Entry.primaryTags`, `Entry.secondaryTags` — the tags of the parts of speech

## Main statements

- `Metadata.places_of_read` — the last item with something for a place counts
- `Entry.pos_of_read`, `Entry.secondary_of_read`, `Entry.lemmaRoot_of_read` — what becomes of it
- `Entry.lemmaRoot_eq_nil_iff` — when a lexeme is left without a lemma root
- `Entry.tags_of_read` — what a line with a lexeme says is known, and what its lexeme takes over
- `Entry.exists_tag_without_effect` — tags that leave nothing behind
-/

namespace List

/-- Where each member of a list may replace what was there before, the last one that does counts. -/
theorem foldl_elim_eq {α β γ : Type} (f : α → Option γ) (g : γ → β) (xs : List α) (b : β) :
    xs.foldl (fun b x => (f x).elim b g) b = (xs.filterMap f).getLast?.elim b g := by
  induction xs using List.reverseRecOn with
  | nil => rfl
  | append_singleton xs x ih =>
    rw [List.foldl_append, ih, List.filterMap_append]
    cases hx : f x with
    | none => simp [hx]
    | some c => simp [hx]

end List

namespace TurkishMorphology

namespace Metadata

variable {m m' : Metadata} {line : Nat} {key value item : Word}

/-- A blank piece says nothing. -/
theorem filterMap_items (key text : Word) :
    (items text).filterMap (value? key) = valuesOf key text := by
  rw [items, valuesOf, Word.pieces_eq_splitOn, List.filterMap_filter]
  refine List.filterMap_congr fun piece _ => ?_
  cases piece <;> rfl

/-- An attribute leaves all places as they were. -/
theorem places_of_addAttribute {tag : Word} (h : addAttribute line m tag = .ok m') :
    m'.pos = m.pos ∧ m'.secondary = m.secondary ∧ m'.actualRoot = m.actualRoot := by
  obtain ⟨a, -, rfl⟩ := addAttribute_eq_ok_iff.mp h
  exact ⟨rfl, rfl, rfl⟩

theorem places_of_addAttributes {given : List Word}
    (h : given.foldlM (addAttribute line) m = .ok m') :
    m'.pos = m.pos ∧ m'.secondary = m.secondary ∧ m'.actualRoot = m.actualRoot := by
  refine Except.foldlM_induction
    (motive := fun n => n.pos = m.pos ∧ n.secondary = m.secondary ∧ n.actualRoot = m.actualRoot)
    h ⟨rfl, rfl, rfl⟩ fun tag _ b c hb hc => ?_
  obtain ⟨hpos, hsecondary, hroot⟩ := places_of_addAttribute hc
  rw [hpos, hsecondary, hroot]
  exact hb

/-- What an item puts in each place. -/
theorem places_of_addItem (h : addItem line m item = .ok m') :
    m'.pos = ((value? ['P'] item).map primaryTag).elim m.pos
      (fun tag => PrimaryPos.ofTag? tag.text) ∧
    m'.secondary = ((value? ['P'] item).bind secondaryTag?).elim m.secondary
      (fun tag => SecondaryPos.ofTag? tag.text) ∧
    m'.actualRoot = (value? ['R'] item).elim m.actualRoot some := by
  obtain ⟨value, ⟨hkeyed, h⟩ | ⟨hkeyed, h⟩ | ⟨hkeyed, rfl⟩⟩ := addItem_eq_ok_iff.mp h
  · obtain ⟨-, -, rfl⟩ := addPartsOfSpeech_eq_ok_iff.mp h
    simp [value?_of_keyed? hkeyed]
  · simpa [value?_of_keyed? hkeyed] using places_of_addAttributes h
  · simp [value?_of_keyed? hkeyed]

variable {text : Word}

/-- In each place stands what the last item puts there. -/
theorem places_of_read (h : read line text = .ok m) :
    m.pos = ((valuesOf ['P'] text).map primaryTag).getLast?.bind
      (fun tag => PrimaryPos.ofTag? tag.text) ∧
    m.secondary = ((valuesOf ['P'] text).filterMap secondaryTag?).getLast?.bind
      (fun tag => SecondaryPos.ofTag? tag.text) ∧
    m.actualRoot = (valuesOf ['R'] text).getLast? := by
  have hpos : m.pos = (items text).foldl (fun pos item =>
      ((value? ['P'] item).map primaryTag).elim pos fun tag => PrimaryPos.ofTag? tag.text) none :=
    Except.foldl_of_foldlM (fun _ _ _ h => (places_of_addItem h).1) h
  have hsecondary : m.secondary = (items text).foldl (fun secondary item =>
      ((value? ['P'] item).bind secondaryTag?).elim secondary fun tag =>
        SecondaryPos.ofTag? tag.text) none :=
    Except.foldl_of_foldlM (fun _ _ _ h => (places_of_addItem h).2.1) h
  have hroot : m.actualRoot = (items text).foldl (fun root item =>
      (value? ['R'] item).elim root some) none :=
    Except.foldl_of_foldlM (fun _ _ _ h => (places_of_addItem h).2.2) h
  rw [List.foldl_elim_eq] at hpos hsecondary hroot
  rw [hpos, hsecondary, hroot, ← filterMap_items, ← filterMap_items, List.map_filterMap,
    List.filterMap_filterMap]
  refine ⟨?_, ?_, ?_⟩
  · cases ((items text).filterMap fun item => (value? ['P'] item).map primaryTag).getLast? <;> rfl
  · cases ((items text).filterMap fun item => (value? ['P'] item).bind secondaryTag?).getLast? <;>
      rfl
  · cases ((items text).filterMap (value? ['R'])).getLast? <;> rfl

theorem exists_addItem_of_mem_valuesOf (h : read line text = .ok m)
    (hv : value ∈ valuesOf key text) :
    ∃ item n n', value? key item = some value ∧ addItem line n item = .ok n' := by
  rw [← filterMap_items] at hv
  obtain ⟨item, hitem, hvalue⟩ := List.mem_filterMap.mp hv
  obtain ⟨n, n', hadded⟩ := Except.exists_of_mem_foldlM h hitem
  exact ⟨item, n, n', hvalue, hadded⟩

/-- Every tag of a part of speech is known. -/
theorem known_of_mem_valuesOf (h : read line text = .ok m) (hv : value ∈ valuesOf ['P'] text) :
    (∃ pos, PrimaryPos.ofTag? (primaryTag value).text = some pos) ∧
      ∀ tag, secondaryTag? value = some tag →
        ∃ secondary, SecondaryPos.ofTag? tag.text = some secondary := by
  obtain ⟨item, n, n', hvalue, hadded⟩ := exists_addItem_of_mem_valuesOf h hv
  obtain ⟨v, ⟨hkeyed, hadded⟩ | ⟨hkeyed, -⟩ | ⟨hkeyed, -⟩⟩ := addItem_eq_ok_iff.mp hadded
  · obtain ⟨hprimary, hsecondary, -⟩ := addPartsOfSpeech_eq_ok_iff.mp hadded
    cases (keyed?_of_value? hvalue).symm.trans hkeyed
    exact ⟨hprimary, hsecondary⟩
  · cases (keyed?_of_value? hvalue).symm.trans hkeyed
  · cases (keyed?_of_value? hvalue).symm.trans hkeyed

/-- Every attribute tag is known. -/
theorem known_of_mem_tags {tag : Word} (h : read line text = .ok m)
    (hv : value ∈ valuesOf ['A'] text) (ht : tag ∈ tagsOf value) (hne : tag ≠ []) :
    ∃ a, LexemeAttribute.ofTag? tag.text = some a := by
  obtain ⟨item, n, n', hvalue, hadded⟩ := exists_addItem_of_mem_valuesOf h hv
  obtain ⟨v, ⟨hkeyed, -⟩ | ⟨hkeyed, hadded⟩ | ⟨hkeyed, -⟩⟩ := addItem_eq_ok_iff.mp hadded
  · cases (keyed?_of_value? hvalue).symm.trans hkeyed
  · cases (keyed?_of_value? hvalue).symm.trans hkeyed
    have hgiven : tag ∈ (tagsOf value).filter fun t => !t.isEmpty :=
      List.mem_filter.mpr ⟨ht, by simpa using hne⟩
    obtain ⟨d, e, hstep⟩ := Except.exists_of_mem_foldlM hadded hgiven
    obtain ⟨a, ha, -⟩ := addAttribute_eq_ok_iff.mp hstep
    exact ⟨a, ha⟩
  · cases (keyed?_of_value? hvalue).symm.trans hkeyed

end Metadata

open LexemeAttributes in
/-- Of several tags each adds the attribute that it names. -/
theorem LexemeAttributes.contains_foldl_addTag (given : List Word) (s : LexemeAttributes)
    (a : LexemeAttribute) : (given.foldl addTag s).contains a = true ↔
      s.contains a = true ∨ ∃ tag ∈ given, LexemeAttribute.ofTag? tag.text = some a := by
  induction given generalizing s with
  | nil => simp
  | cons tag given ih =>
    have hone : (addTag s tag).contains a = true ↔
        s.contains a = true ∨ LexemeAttribute.ofTag? tag.text = some a := by
      rw [addTag]
      cases LexemeAttribute.ofTag? tag.text with
      | none => simp
      | some b =>
        rw [Option.elim_some, FlagSet.contains_insert, Bool.or_eq_true, decide_eq_true_iff,
          Option.some_inj, @eq_comm _ a b]
    rw [List.foldl_cons, ih, hone, or_assoc, List.exists_mem_cons_iff]

namespace Entry

variable {text inner root : Word} {line : Nat} {l : Lexeme} {m : Metadata} {tag : Word}

/-- What a line says between the brackets with a given key. -/
def valuesOf (key text : Word) : List Word :=
  (split 0 (Word.trim text)).toOption.elim [] fun parts => Metadata.valuesOf key parts.2

/-- The tags of a line that stand in the place of the primary part of speech. -/
def primaryTags (text : Word) : List Word := (valuesOf ['P'] text).map Metadata.primaryTag

/-- The tags of a line that stand in the place of the secondary part of speech. -/
def secondaryTags (text : Word) : List Word :=
  (valuesOf ['P'] text).filterMap Metadata.secondaryTag?

theorem valuesOf_of_split (h : split line (Word.trim text) = .ok (root, inner)) (key : Word) :
    valuesOf key text = Metadata.valuesOf key inner := by
  rw [valuesOf, split_of_ok 0 h]
  rfl

/-- The primary part of speech is the one that the last item gives. -/
theorem pos_of_read (h : read text line = .ok (some l))
    (hlast : (primaryTags text).getLast? = some tag) : PrimaryPos.ofTag? tag.text = some l.pos := by
  obtain ⟨root, inner, m, hparts, -, hm, rfl⟩ := exists_of_read h
  obtain ⟨hplace, -, -⟩ := Metadata.places_of_read hm
  rw [primaryTags, valuesOf_of_split hparts] at hlast
  rw [hlast, Option.bind_some] at hplace
  obtain ⟨value, hvalue, rfl⟩ := List.mem_map.mp (List.mem_of_getLast? hlast)
  obtain ⟨⟨pos, hpos⟩, -⟩ := Metadata.known_of_mem_valuesOf hm hvalue
  rw [toLexeme, hplace, hpos, Option.getD_some]

/-- The secondary part of speech is the one in the last item that gives one. -/
theorem secondary_of_read (h : read text line = .ok (some l)) :
    l.secondary = (secondaryTags text).getLast?.bind fun tag => SecondaryPos.ofTag? tag.text := by
  obtain ⟨root, inner, m, hparts, -, hm, rfl⟩ := exists_of_read h
  obtain ⟨-, hplace, -⟩ := Metadata.places_of_read hm
  rw [secondaryTags, valuesOf_of_split hparts, ← hplace, toLexeme]

/-- The lemma root is the actual root, if the line gives one. -/
theorem lemmaRoot_of_read {actual : Word} (h : read text line = .ok (some l))
    (hlast : (valuesOf ['R'] text).getLast? = some actual) : l.lemmaRoot = actual := by
  obtain ⟨root, inner, m, hparts, -, hm, rfl⟩ := exists_of_read h
  obtain ⟨-, -, hplace⟩ := Metadata.places_of_read hm
  rw [valuesOf_of_split hparts, ← hplace] at hlast
  rw [toLexeme, hlast, Option.getD_some]

theorem ne_nil_of_infinitiveStem? {stem : Word} (h : infinitiveStem? root = some stem) :
    stem ≠ [] := by
  obtain ⟨-, hne⟩ := Option.filter_eq_some_iff.mp h
  rintro rfl
  cases hne

/-- A root that is not given is the one that the line begins with, and that one has letters. -/
theorem lemmaRoot_ne_nil_of_read (h : read text line = .ok (some l))
    (hnone : (valuesOf ['R'] text).getLast? = none) : l.lemmaRoot ≠ [] := by
  obtain ⟨root, inner, m, hparts, hroot, hm, rfl⟩ := exists_of_read h
  obtain ⟨-, -, hplace⟩ := Metadata.places_of_read hm
  rw [valuesOf_of_split hparts, ← hplace] at hnone
  have hstem : (infinitiveStem? root).getD root ≠ [] := by
    cases hinfinitive : infinitiveStem? root with
    | none => exact hroot
    | some stem => exact ne_nil_of_infinitiveStem? hinfinitive
  simp only [toLexeme, hnone, Option.getD_none]
  generalize m.pos.getD _ = pos
  by_cases hverb : pos = .verb
  · rw [if_pos hverb]
    exact hstem
  · rw [if_neg hverb]
    exact hroot

theorem lemmaRoot_eq_nil_iff (h : read text line = .ok (some l)) :
    l.lemmaRoot = [] ↔ (valuesOf ['R'] text).getLast? = some [] := by
  cases hlast : (valuesOf ['R'] text).getLast? with
  | none =>
    have hne := lemmaRoot_ne_nil_of_read h hlast
    simp [hne]
  | some actual => rw [lemmaRoot_of_read h hlast, Option.some_inj]

theorem known_of_mem_primaryTags (h : read text line = .ok (some l))
    (htag : tag ∈ primaryTags text) :
    ∃ pos, PrimaryPos.ofTag? tag.text = some pos := by
  obtain ⟨root, inner, m, hparts, -, hm, rfl⟩ := exists_of_read h
  rw [primaryTags, valuesOf_of_split hparts] at htag
  obtain ⟨value, hvalue, rfl⟩ := List.mem_map.mp htag
  exact (Metadata.known_of_mem_valuesOf hm hvalue).1

theorem known_of_mem_secondaryTags (h : read text line = .ok (some l))
    (htag : tag ∈ secondaryTags text) :
    ∃ secondary, SecondaryPos.ofTag? tag.text = some secondary := by
  obtain ⟨root, inner, m, hparts, -, hm, rfl⟩ := exists_of_read h
  rw [secondaryTags, valuesOf_of_split hparts] at htag
  obtain ⟨value, hvalue, hsecondary⟩ := List.mem_filterMap.mp htag
  exact (Metadata.known_of_mem_valuesOf hm hvalue).2 tag hsecondary

/-- An attribute tag names an attribute that the lexeme has. -/
theorem exists_has_of_mem_tags {value : Word} (h : read text line = .ok (some l))
    (hvalue : value ∈ valuesOf ['A'] text) (htag : tag ∈ Metadata.tagsOf value) (hne : tag ≠ []) :
    ∃ a, LexemeAttribute.ofTag? tag.text = some a ∧ l.has a = true := by
  obtain ⟨root, inner, m, hparts, -, hm, rfl⟩ := exists_of_read h
  rw [valuesOf_of_split hparts] at hvalue
  obtain ⟨a, ha⟩ := Metadata.known_of_mem_tags hm hvalue htag hne
  rw [← Metadata.filterMap_items] at hvalue
  obtain ⟨item, hitem, hkeyed⟩ := List.mem_filterMap.mp hvalue
  have hmem : tag ∈ (Metadata.items inner).flatMap Metadata.attributeTags := by
    refine List.mem_flatMap.mpr ⟨item, hitem, ?_⟩
    rw [Metadata.attributeTags_of_keyed? (Metadata.keyed?_of_value? hkeyed), if_pos rfl]
    exact List.mem_filter.mpr ⟨htag, by simpa using hne⟩
  have hstated : m.attributes.contains a = true := by
    rw [Metadata.attributes_of_read hm, LexemeAttributes.contains_foldl_addTag]
    exact .inr ⟨tag, hmem, ha⟩
  refine ⟨a, ha, ?_⟩
  exact FlagSet.contains_of_containsAll (containsAll_inferAttributes ..) hstated

/-- Whatever a line with a lexeme states is known: no tag in the place of a part of speech and no
    attribute tag names nothing. The lexeme takes over every attribute, and of the parts of speech
    the last one of each kind. -/
theorem tags_of_read (h : read text line = .ok (some l)) :
    (∀ tag ∈ primaryTags text, ∃ pos : PrimaryPos, pos.tag = tag.text) ∧
    (∀ tag ∈ secondaryTags text, ∃ secondary : SecondaryPos, secondary.tag = tag.text) ∧
    (∀ tag, (primaryTags text).getLast? = some tag → l.pos.tag = tag.text) ∧
    (∀ tag, (secondaryTags text).getLast? = some tag →
      ∃ secondary, l.secondary = some secondary ∧ secondary.tag = tag.text) ∧
    ∀ value ∈ valuesOf ['A'] text, ∀ tag ∈ Metadata.tagsOf value, tag ≠ [] →
      ∃ a : LexemeAttribute, a.tag = tag.text ∧ l.has a = true := by
  refine ⟨fun tag htag => ?_, fun tag htag => ?_, fun tag hlast => ?_, fun tag hlast => ?_,
    fun value hvalue tag htag hne => ?_⟩
  · obtain ⟨pos, hpos⟩ := known_of_mem_primaryTags h htag
    exact ⟨pos, PrimaryPos.tag_of_ofTag? hpos⟩
  · obtain ⟨secondary, hsecondary⟩ := known_of_mem_secondaryTags h htag
    exact ⟨secondary, SecondaryPos.tag_of_ofTag? hsecondary⟩
  · exact PrimaryPos.tag_of_ofTag? (pos_of_read h hlast)
  · obtain ⟨secondary, hsecondary⟩ := known_of_mem_secondaryTags h (List.mem_of_getLast? hlast)
    refine ⟨secondary, ?_, SecondaryPos.tag_of_ofTag? hsecondary⟩
    rw [secondary_of_read h, hlast, Option.bind_some, hsecondary]
  · obtain ⟨a, ha, hhas⟩ := exists_has_of_mem_tags h hvalue htag hne
    exact ⟨a, LexemeAttribute.tag_of_ofTag? ha, hhas⟩

/-- `akşam`, with a secondary part of speech that stays when the primary one is stated again. -/
def aksamLine : Word := "akşam [P:Adj,Time; P:Noun; A:Plural,]".toList

def aksam : Lexeme where
  citation := "akşam".toList
  lemmaRoot := "akşam".toList
  pos := .noun
  secondary := some .time
  attributes := .ofList [.plural]

theorem tags_of_read_aksam : read aksamLine 1 = .ok (some aksam) ∧
    (∀ tag ∈ primaryTags aksamLine, ∃ pos : PrimaryPos, pos.tag = tag.text) ∧
    (∀ tag ∈ secondaryTags aksamLine, ∃ secondary : SecondaryPos, secondary.tag = tag.text) ∧
    (∀ tag, (primaryTags aksamLine).getLast? = some tag → aksam.pos.tag = tag.text) ∧
    (∀ tag, (secondaryTags aksamLine).getLast? = some tag →
      ∃ secondary, aksam.secondary = some secondary ∧ secondary.tag = tag.text) ∧
    ∀ value ∈ valuesOf ['A'] aksamLine, ∀ tag ∈ Metadata.tagsOf value, tag ≠ [] →
      ∃ a : LexemeAttribute, a.tag = tag.text ∧ aksam.has a = true := by
  have hread : read aksamLine 1 = .ok (some aksam) := by decide +kernel
  exact ⟨hread, tags_of_read hread⟩

/-- `kitap`, with more tags than there are parts of speech. -/
def kitapLine : Word := "kitap [P:Noun,Prop,Bogus]".toList

/-- Not every tag is taken over: of `akşam` the first primary part of speech gives way to the second,
    and a third tag of `kitap` is not looked at. -/
theorem exists_tag_without_effect :
    (read aksamLine 1 = .ok (some aksam) ∧ "Adj".toList ∈ primaryTags aksamLine ∧
      aksam.pos.tag ≠ "Adj" ∧ ∀ secondary, aksam.secondary = some secondary →
        secondary.tag ≠ "Adj") ∧
    (∃ l, read kitapLine 1 = .ok (some l)) ∧
    ∃ value ∈ valuesOf ['P'] kitapLine, "Bogus".toList ∈ Metadata.tagsOf value ∧
      (∀ pos : PrimaryPos, pos.tag ≠ "Bogus") ∧ ∀ secondary : SecondaryPos,
        secondary.tag ≠ "Bogus" := by
  refine ⟨⟨by decide +kernel, by decide +kernel, by decide, ?_⟩, ?_, ?_⟩
  · rintro secondary ⟨⟩
    decide
  · have hread : (read kitapLine 1).toOption.join.isSome = true := by decide +kernel
    obtain ⟨l, hl⟩ := Option.isSome_iff_exists.mp hread
    exact ⟨l, Except.toOption_eq_some_iff.mp (Option.join_eq_some_iff.mp hl)⟩
  · refine ⟨"Noun,Prop,Bogus".toList, by decide +kernel, by decide +kernel, ?_, ?_⟩
    · intro pos
      cases pos <;> decide
    · intro secondary
      cases secondary <;> decide

end Entry

end TurkishMorphology
