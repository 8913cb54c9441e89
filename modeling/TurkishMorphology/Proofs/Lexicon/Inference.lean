import TurkishMorphology.Proofs.Lexicon.Alternation
import TurkishMorphology.Proofs.Lexicon.Context
import TurkishMorphology.Proofs.Lexicon.Growth
/-!
# Roots of entries without attributes

An entry that states no attributes gets those that the shape of its root suggests. Of the attributes
that ask for an altered root only two are ever inferred: voicing, where the root ends in a stop, and
the dropped vowel, where it ends in a vowel that is not its only one. Either change applies to the
root it is inferred from, so an entry without attributes always has roots.

## Main definitions

- `Entry.statedTags` — the attribute tags that a line states
- `Lexeme.AltersTo` — the altered stems of entries without attributes

## Main statements

- `RootShape.contains_verbAttributes`, `RootShape.contains_nominalAttributes` — what is inferred of
  the attributes that ask for an altered root
- `Entry.attributes_of_read` — the attributes of an entry, stated and inferred
- `Lexeme.roots_of_unstated` — the roots of an entry that states no attributes
-/

namespace TurkishMorphology

open LexemeAttributes

-- ════════════════════════════════════════════════════════════════════════
-- What is inferred
-- ════════════════════════════════════════════════════════════════════════

namespace LexemeAttributes

variable {s : LexemeAttributes} {given : List LexemeAttribute} {a x : LexemeAttribute}

theorem contains_addUnlessGiven : (addUnlessGiven s given a).contains x =
    (s.contains x || !hasSome s given && decide (x = a)) := by
  unfold addUnlessGiven
  cases hasSome s given <;> simp

theorem contains_addUnlessGiven_of_ne (h : x ≠ a) :
    (addUnlessGiven s given a).contains x = s.contains x := by
  simp [contains_addUnlessGiven, h]

/-- An attribute of a class leaves those outside of it as they were. -/
theorem contains_addUnlessGiven_of_notMem (ha : a ∈ given) (hx : x ∉ given) :
    (addUnlessGiven s given a).contains x = s.contains x :=
  contains_addUnlessGiven_of_ne fun heq => hx (heq ▸ ha)

end LexemeAttributes

namespace RootShape

variable {s : RootShape} {stated : LexemeAttributes} {x : LexemeAttribute}

/-- The attributes of a verb before its voicing is settled. -/
def stemAttributes (s : RootShape) (stated : LexemeAttributes) : LexemeAttributes :=
  let attributes := if s.dropsVowel stated then stated.insert .progressiveVowelDrop else stated
  let attributes := addUnlessGiven attributes LexemeAttribute.aorists s.aorist
  let attributes := addUnlessGiven attributes LexemeAttribute.causatives s.causative
  addUnlessGiven attributes LexemeAttribute.passives s.passive

theorem verbAttributes_eq : s.verbAttributes stated =
    if s.endsInStop || (s.stemAttributes stated).contains .progressiveVowelDrop then
      addUnlessGiven (s.stemAttributes stated) LexemeAttribute.voicings .noVoicing
    else s.stemAttributes stated :=
  rfl

theorem aorist_mem (s : RootShape) : s.aorist ∈ LexemeAttribute.aorists := by
  unfold aorist
  split <;> decide

theorem causative_mem (s : RootShape) : s.causative ∈ LexemeAttribute.causatives := by
  unfold causative
  split <;> decide

theorem passive_mem (s : RootShape) : s.passive ∈ LexemeAttribute.passives := by
  unfold passive
  split <;> decide

/-- Besides the dropped vowel an aorist, a causative and a passive are inferred, which neither alter
    the root nor settle its voicing. -/
theorem contains_stemAttributes
    (hx : x ∈ LexemeAttribute.modifiers ++ LexemeAttribute.voicings) :
    (s.stemAttributes stated).contains x =
      (stated.contains x || s.dropsVowel stated && decide (x = .progressiveVowelDrop)) := by
  have houtside : ∀ x ∈ LexemeAttribute.modifiers ++ LexemeAttribute.voicings,
      x ∉ LexemeAttribute.aorists ∧ x ∉ LexemeAttribute.causatives ∧
        x ∉ LexemeAttribute.passives := by
    decide
  obtain ⟨haorist, hcausative, hpassive⟩ := houtside x hx
  rw [stemAttributes, contains_addUnlessGiven_of_notMem s.passive_mem hpassive,
    contains_addUnlessGiven_of_notMem s.causative_mem hcausative,
    contains_addUnlessGiven_of_notMem s.aorist_mem haorist]
  cases s.dropsVowel stated <;> simp

/-- Of the attributes that ask for an altered root a verb is inferred to have the dropped vowel
    only. -/
theorem contains_verbAttributes (hx : x ∈ LexemeAttribute.modifiers) :
    (s.verbAttributes stated).contains x =
      (stated.contains x || s.dropsVowel stated && decide (x = .progressiveVowelDrop)) := by
  have hvoicing : x ≠ .noVoicing := by
    rintro rfl
    exact absurd hx (by decide)
  rw [← contains_stemAttributes (List.mem_append_left _ hx), verbAttributes_eq]
  split
  · exact contains_addUnlessGiven_of_ne hvoicing
  · rfl

/-- A verb that drops its vowel keeps its stop unvoiced, unless it is stated what becomes of it. -/
theorem contains_noVoicing_verbAttributes (hdrops : s.dropsVowel stated = true)
    (hstated : hasSome stated LexemeAttribute.voicings = false) :
    (s.verbAttributes stated).contains .noVoicing = true := by
  have hdropped : (s.stemAttributes stated).contains .progressiveVowelDrop = true := by
    rw [contains_stemAttributes (by decide), hdrops, decide_eq_true rfl, Bool.and_true,
      Bool.or_true]
  have hgiven : hasSome (s.stemAttributes stated) LexemeAttribute.voicings = false := by
    rw [hasSome, List.any_eq_false] at hstated ⊢
    intro a ha
    have hne : a ≠ .progressiveVowelDrop := by
      rintro rfl
      exact absurd ha (by decide)
    rw [contains_stemAttributes (List.mem_append_right _ ha), decide_eq_false hne, Bool.and_false,
      Bool.or_false]
    exact hstated a ha
  rw [verbAttributes_eq, hdropped, Bool.or_true, if_pos rfl, contains_addUnlessGiven, hgiven,
    Bool.not_false, Bool.true_and, decide_eq_true rfl, Bool.or_true]

/-- Of the attributes that ask for an altered root other words are inferred to have voicing only,
    and only if they end in a stop. -/
theorem contains_nominalAttributes {pos : PrimaryPos} {secondary : Option SecondaryPos}
    (hx : x ∈ LexemeAttribute.modifiers)
    (h : (s.nominalAttributes pos secondary stated).contains x = true) :
    stated.contains x = true ∨ x = .voicing ∧ s.endsInStop = true := by
  have hvoicing : x ≠ .noVoicing := by
    rintro rfl
    exact absurd hx (by decide)
  unfold nominalAttributes at h
  split at h
  · rw [contains_addUnlessGiven_of_ne hvoicing] at h
    exact .inl h
  · split at h
    · next hstop =>
      by_cases heq : x = .voicing
      · exact .inr ⟨heq, hstop⟩
      · rw [contains_addUnlessGiven_of_ne (by split <;> assumption)] at h
        exact .inl h
    · exact .inl h

end RootShape

-- ════════════════════════════════════════════════════════════════════════
-- What is stated
-- ════════════════════════════════════════════════════════════════════════

namespace LexemeAttributes

/-- The set with the attribute of a tag. -/
def addTag (s : LexemeAttributes) (tag : Word) : LexemeAttributes :=
  (LexemeAttribute.ofTag? tag.text).elim s s.insert

end LexemeAttributes

namespace Metadata

variable {m m' : Metadata} {line : Nat}

/-- The items between the brackets. -/
def items (text : Word) : List Word :=
  ((text.pieces ';').map Word.trim).filter fun item => !item.isEmpty

/-- The tags of an `A` item. -/
def attributeTags (item : Word) : List Word :=
  (item.splitOnce? ':').elim [] fun parts =>
    if Word.trim parts.1 = ['A'] then
      (tags (Word.trim parts.2)).filter fun tag => !tag.isEmpty
    else []

theorem attributeTags_of_keyed? {item key value : Word} (h : keyed? item = some (key, value)) :
    attributeTags item =
      if key = ['A'] then (tagsOf value).filter fun tag => !tag.isEmpty else [] := by
  obtain ⟨parts, hsplit, hparts⟩ := Option.map_eq_some_iff.mp h
  obtain ⟨rfl, rfl⟩ := Prod.mk.inj hparts
  rw [attributeTags, hsplit, Option.elim_some, tags_eq_tagsOf]

theorem attributes_of_addAttribute {tag : Word} (h : addAttribute line m tag = .ok m') :
    m'.attributes = m.attributes.addTag tag := by
  obtain ⟨a, ha, rfl⟩ := addAttribute_eq_ok_iff.mp h
  rw [addTag, ha]
  rfl

/-- An item adds the attributes of its tags. -/
theorem attributes_of_addItem {item : Word} (h : addItem line m item = .ok m') :
    m'.attributes = (attributeTags item).foldl addTag m.attributes := by
  obtain ⟨value, ⟨hkeyed, h⟩ | ⟨hkeyed, h⟩ | ⟨hkeyed, rfl⟩⟩ := addItem_eq_ok_iff.mp h
  · obtain ⟨-, -, rfl⟩ := addPartsOfSpeech_eq_ok_iff.mp h
    rw [attributeTags_of_keyed? hkeyed, if_neg (by decide)]
    rfl
  · rw [attributeTags_of_keyed? hkeyed, if_pos rfl]
    exact Except.foldl_of_foldlM (fun _ _ _ => attributes_of_addAttribute) h
  · rw [attributeTags_of_keyed? hkeyed, if_neg (by decide)]
    rfl

theorem attributes_of_read {text : Word} (h : read line text = .ok m) :
    m.attributes = ((items text).flatMap attributeTags).foldl addTag ∅ := by
  rw [List.foldl_flatMap]
  exact Except.foldl_of_foldlM (fun _ _ _ => attributes_of_addItem) h

end Metadata

namespace Entry

variable {text : Word} {line : Nat} {l : Lexeme}

/-- The attribute tags that a line states. -/
def statedTags (text : Word) : List Word :=
  (split 0 (Word.trim text)).toOption.elim [] fun parts =>
    (Metadata.items parts.2).flatMap Metadata.attributeTags

/-- A line with a lexeme divides into its root and its metadata. -/
theorem exists_of_read (h : read text line = .ok (some l)) :
    ∃ root inner m, split line (Word.trim text) = .ok (root, inner) ∧ root ≠ [] ∧
      Metadata.read line inner = .ok m ∧ l = toLexeme root m := by
  unfold read at h
  dsimp only at h
  split at h
  · cases h
  · obtain ⟨⟨root, inner⟩, hparts, h⟩ := Except.bind_eq_ok_iff.mp h
    dsimp only at h
    split at h
    · cases h
    · next hroot =>
      obtain ⟨m, hm, h⟩ := Except.bind_eq_ok_iff.mp h
      cases h
      refine ⟨root, inner, m, hparts, ?_, hm, rfl⟩
      rintro rfl
      exact hroot rfl

/-- The attributes of an entry are those it states and what is inferred from them. -/
theorem attributes_of_read (h : read text line = .ok (some l)) :
    l.attributes = inferAttributes l.lemmaRoot l.pos l.secondary
      ((statedTags text).foldl addTag ∅) := by
  obtain ⟨root, inner, m, hparts, -, hm, rfl⟩ := exists_of_read h
  have htags : statedTags text = (Metadata.items inner).flatMap Metadata.attributeTags := by
    rw [statedTags, split_of_ok 0 hparts]
    rfl
  rw [htags, ← Metadata.attributes_of_read hm]
  rfl

end Entry

-- ════════════════════════════════════════════════════════════════════════
-- The roots
-- ════════════════════════════════════════════════════════════════════════

namespace Lexeme

variable {l : Lexeme} {c : Char}

theorem isModified_eq_false_iff :
    l.isModified = false ↔ ∀ a ∈ LexemeAttribute.modifiers, l.has a = false := by
  simp [isModified, List.any_eq_false]

/-- What an entry is inferred to change if it states no attributes. -/
inductive Unstated (l : Lexeme) (last : Char) : Prop
  | unmodified (unmodified : l.isModified = false)
  | voiced (only : l.HasOnly .voicing) (stop : (Alphabet.letter last).isVoicelessStop = true)
  | shortened (only : l.HasOnly .progressiveVowelDrop) (unvoiced : l.has .noVoicing = true)
      (vowel : Alphabet.isVowel last = true) (polysyllabic : 1 < l.lemmaRoot.vowelCount)

/-- What is inferred from no attributes fits the root it is inferred from. -/
theorem unstated_of_inferAttributes (hlast : l.lemmaRoot.getLast? = some c)
    (h : l.attributes = inferAttributes l.lemmaRoot l.pos l.secondary ∅) : l.Unstated c := by
  have hshape : RootShape.of? l.lemmaRoot = some ⟨l.lemmaRoot, c, l.lemmaRoot.vowelCount⟩ := by
    rw [RootShape.of?, hlast]
    rfl
  rw [inferAttributes, hshape] at h
  dsimp only at h
  generalize hs : (⟨l.lemmaRoot, c, l.lemmaRoot.vowelCount⟩ : RootShape) = s at h
  split at h
  · have hhas : ∀ a ∈ LexemeAttribute.modifiers,
        l.has a = (s.dropsVowel ∅ && decide (a = .progressiveVowelDrop)) := by
      intro a ha
      rw [has, h, RootShape.contains_verbAttributes ha, FlagSet.contains_empty, Bool.false_or]
    cases hdrops : s.dropsVowel ∅ with
    | false =>
      refine .unmodified (isModified_eq_false_iff.mpr fun a ha => ?_)
      rw [hhas a ha, hdrops, Bool.false_and]
    | true =>
      have hshape : (s.endsInVowel && s.isPolysyllabic) = true := (Bool.and_eq_true_iff.mp hdrops).1
      obtain ⟨hvowel, hpoly⟩ := Bool.and_eq_true_iff.mp hshape
      subst hs
      refine .shortened (fun a ha => ?_) ?_ hvowel (of_decide_eq_true hpoly)
      · rw [hhas a ha, hdrops, Bool.true_and]
      · rw [has, h]
        exact RootShape.contains_noVoicing_verbAttributes hdrops (by decide)
  · have hhas : ∀ a ∈ LexemeAttribute.modifiers, l.has a = true →
        a = .voicing ∧ s.endsInStop = true := by
      intro a ha hcontains
      rw [has, h] at hcontains
      rcases RootShape.contains_nominalAttributes ha hcontains with hempty | hvoiced
      · rw [FlagSet.contains_empty] at hempty
        cases hempty
      · exact hvoiced
    cases hvoicing : l.has .voicing with
    | false =>
      refine .unmodified (isModified_eq_false_iff.mpr fun a ha => ?_)
      refine Bool.eq_false_iff.mpr fun hcontains => ?_
      rw [(hhas a ha hcontains).1, hvoicing] at hcontains
      cases hcontains
    | true =>
      have hstop := (hhas .voicing (by decide) hvoicing).2
      subst hs
      refine .voiced (fun a ha => ?_) hstop
      by_cases heq : a = .voicing
      · rw [heq, hvoicing, decide_eq_true rfl]
      · rw [decide_eq_false heq]
        exact Bool.eq_false_iff.mpr fun hcontains => heq (hhas a ha hcontains).1

/-- The altered stem of an entry without attributes. -/
inductive AltersTo (l : Lexeme) (stem : Word) : Prop
  | voiced {c : Char} (asked : l.has .voicing = true) (final : l.lemmaRoot.getLast? = some c)
      (stop : (Alphabet.letter c).isVoicelessStop = true)
      (voices : Word.VoicesTo l.lemmaRoot stem)
  | shortened {c : Char} (asked : l.has .progressiveVowelDrop = true)
      (unvoiced : l.has .noVoicing = true) (final : l.lemmaRoot = stem ++ [c])
      (vowel : Alphabet.isVowel c = true)

theorem AltersTo.ne {stem : Word} (h : l.AltersTo stem) : stem ≠ l.lemmaRoot := by
  cases h with
  | voiced _ _ _ voices => exact voices.ne
  | shortened _ _ final _ =>
    intro heq
    simp [← heq] at final

/-- The lexeme has a second root for vowels, with an altered stem. -/
def HasAlteredRoot (l : Lexeme) : Prop :=
  ∃ r s, l.roots = .ok [r, s] ∧ r.surface = l.lemmaRoot ∧ s.surface ≠ [] ∧
    s.expectations.contains .vowelStart = true ∧ l.AltersTo s.surface

theorem hasAlteredRoot_of_change {stem : Word} {exclusive : Bool}
    (hregular : l.roots = (Alternation.ofLexeme l).map (Alternation.roots l))
    (h : Alternation.ofLexeme l =
      .ok (Alternation.change { stem := l.lemmaRoot } stem exclusive))
    (halters : l.AltersTo stem) (hne : stem ≠ []) : l.HasAlteredRoot := by
  rw [h] at hregular
  obtain ⟨r, s, hrs, ⟨hr, -⟩, hs, hexpects⟩ := Alternation.exists_roots_of_stem_ne
    (a := Alternation.change { stem := l.lemmaRoot } stem exclusive) halters.ne
  refine ⟨r, s, hrs ▸ hregular, hr, ?_, ?_, ?_⟩
  · rw [hs]
    exact hne
  · rw [hexpects]
    simp [Alternation.change]
  · rw [hs]
    exact halters

/-- A final stop can be voiced. -/
theorem hasAlteredRoot_of_stop (h : l.HasOnly .voicing) (hlast : l.lemmaRoot.getLast? = some c)
    (hstop : (Alphabet.letter c).isVoicelessStop = true) : l.HasAlteredRoot := by
  have hhas : l.has .voicing = true := h .voicing (by decide)
  have hasks : l.isVoiced = true := by
    rw [isVoiced, hhas, Bool.true_or]
  obtain ⟨stem, hvoices⟩ := Word.exists_voicesTo hlast hstop
  have hvoiced : Alternation.voiceStop l { stem := l.lemmaRoot } =
      .ok (Alternation.change { stem := l.lemmaRoot } stem (!l.has .voicingOpt)) := by
    rw [Alternation.voiceStop_lemmaRoot_eq_ok_iff, if_pos hasks]
    exact ⟨stem, hvoices, rfl⟩
  refine hasAlteredRoot_of_change (roots_of_hasOnly h (by decide) (by decide))
    ((ofLexeme_of_hasOnly_voicing h).trans hvoiced) (.voiced hhas hlast hstop hvoices) ?_
  rintro rfl
  rw [List.length_eq_zero_iff.mp hvoices.length_eq.symm] at hlast
  cases hlast

/-- A final vowel can be dropped, and if it is not the only one, letters remain. -/
theorem hasAlteredRoot_of_vowel (h : l.HasOnly .progressiveVowelDrop)
    (hvoicing : l.has .noVoicing = true) (hlast : l.lemmaRoot.getLast? = some c)
    (hvowel : Alphabet.isVowel c = true) (hpoly : 1 < l.lemmaRoot.vowelCount) :
    l.HasAlteredRoot := by
  have hhas : l.has .progressiveVowelDrop = true := h .progressiveVowelDrop (by decide)
  obtain ⟨stem, hfinal⟩ := List.getLast?_eq_some_iff.mp hlast
  have hdropped : Alternation.dropFinal l { stem := l.lemmaRoot } =
      .ok (Alternation.change { stem := l.lemmaRoot } stem false) := by
    rw [Alternation.dropFinal_eq_ok_iff, if_pos hhas, hfinal, List.dropLast_concat]
    exact ⟨List.concat_ne_nil c stem, rfl⟩
  refine hasAlteredRoot_of_change (roots_of_hasOnly h (by decide) (by decide))
    ((ofLexeme_of_hasOnly_progressiveVowelDrop h).trans hdropped)
    (.shortened hhas hvoicing hfinal hvowel) ?_
  rintro rfl
  have hle : l.lemmaRoot.vowelCount ≤ l.lemmaRoot.length := List.countP_le_length
  rw [hfinal, List.nil_append, List.length_singleton] at hle
  rw [hfinal, List.nil_append] at hpoly
  omega

/-- An entry that states no attributes has roots whatever its lemma root looks like: the lemma root
    itself, and perhaps one stem for vowels, with the final stop voiced or the final vowel
    dropped. -/
theorem roots_of_unstated {text : Word} {line : Nat} (h : Entry.read text line = .ok (some l))
    (hstated : Entry.statedTags text = []) (hne : l.lemmaRoot ≠ []) :
    ∃ rs, l.roots = .ok rs ∧
      (∀ r ∈ rs, r.lexeme = l ∧ r.surface ≠ [] ∧ r.attributes ∈ Phonetics.contexts) ∧
      (rs.map Root.surface).Nodup ∧
      ((∃ r, rs = [r] ∧ r.surface = l.lemmaRoot) ∨
        ∃ r s, rs = [r, s] ∧ r.surface = l.lemmaRoot ∧
          s.expectations.contains .vowelStart = true ∧ l.AltersTo s.surface) := by
  have hattributes := Entry.attributes_of_read h
  rw [hstated] at hattributes
  have hlast : l.lemmaRoot.getLast? = some (l.lemmaRoot.getLast hne) :=
    List.getLast?_eq_some_getLast hne
  have hroots : l.roots = .ok [l.plainRoot l.lemmaRoot] ∨ l.HasAlteredRoot := by
    cases unstated_of_inferAttributes hlast hattributes with
    | unmodified hplain =>
      rw [roots, hplain, if_neg Bool.false_ne_true]
      exact .inl rfl
    | voiced only stop => exact .inr (hasAlteredRoot_of_stop only hlast stop)
    | shortened only unvoiced vowel polysyllabic =>
      exact .inr (hasAlteredRoot_of_vowel only unvoiced hlast vowel polysyllabic)
  -- What all roots of a lexeme have in common needs only that they have letters.
  have hcommon : ∀ rs, l.roots = .ok rs → (∀ r ∈ rs, r.surface ≠ []) →
      (∀ r ∈ rs, r.lexeme = l ∧ r.surface ≠ [] ∧ r.attributes ∈ Phonetics.contexts) ∧
        (rs.map Root.surface).Nodup := by
    intro rs hrs hletters
    refine ⟨fun r hr => ⟨(spells_of_mem_roots hrs hr).1, hletters r hr, ?_⟩, nodup_surfaces hrs⟩
    exact attributes_mem_contexts_of_mem_roots hrs hr (hletters r hr)
  rcases hroots with hplain | ⟨r, s, hrs, hr, hs, hvowel, halters⟩
  · obtain ⟨hall, hnodup⟩ := hcommon _ hplain fun r hr => by
      rw [List.mem_singleton.mp hr]
      exact hne
    exact ⟨_, hplain, hall, hnodup, .inl ⟨_, rfl, rfl⟩⟩
  · obtain ⟨hall, hnodup⟩ := hcommon _ hrs (by simp [hr, hs, hne])
    exact ⟨_, hrs, hall, hnodup, .inr ⟨r, s, rfl, hr, hvowel, halters⟩⟩

/-- `ahenk`, which ends in a stop after its second vowel. -/
def ahenk : Lexeme where
  citation := "ahenk".toList
  lemmaRoot := "ahenk".toList
  pos := .noun
  attributes := .ofList [.voicing]

/-- For `ahenk` and `aheng`. -/
theorem roots_of_unstated_ahenk :
    Entry.read "ahenk".toList 1 = .ok (some ahenk) ∧ Entry.statedTags "ahenk".toList = [] ∧
      ahenk.lemmaRoot ≠ [] ∧ ∃ rs, ahenk.roots = .ok rs ∧
        (∀ r ∈ rs, r.lexeme = ahenk ∧ r.surface ≠ [] ∧ r.attributes ∈ Phonetics.contexts) ∧
        (rs.map Root.surface).Nodup ∧
        ((∃ r, rs = [r] ∧ r.surface = ahenk.lemmaRoot) ∨
          ∃ r s, rs = [r, s] ∧ r.surface = ahenk.lemmaRoot ∧
            s.expectations.contains .vowelStart = true ∧ ahenk.AltersTo s.surface) := by
  have hread : Entry.read "ahenk".toList 1 = .ok (some ahenk) := by decide +kernel
  have hstated : Entry.statedTags "ahenk".toList = [] := by decide +kernel
  have hne : ahenk.lemmaRoot ≠ [] := by decide
  exact ⟨hread, hstated, hne, roots_of_unstated hread hstated hne⟩

end Lexeme

end TurkishMorphology
