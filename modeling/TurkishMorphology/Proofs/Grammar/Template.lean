import TurkishMorphology.Proofs.Grammar.Continuation
import TurkishMorphology.Proofs.Lexicon.Stem
/-!
# What templates stand for

A template stands for a letter in every context as soon as one of its positions is neither optional
nor a literal. Voicing the final stop changes nothing in this.

## Main definitions

- `Slot.isSpoken`, `Template.isSpoken` — what stands for a letter in every context
- `Slot.letters`, `Template.isMute` — the letters that may stand at a position, and templates
  without any
- `Template.isDefinite` — what stands for something in every context, or for nothing in any

## Main statements

- `Template.hasAlphanumeric_resolve` — what a spoken template stands for
- `Template.isApplicable_of_mem_contexts` — contexts resolve every template
- `Realization.IsSpelledIn.hasAlphanumeric_text` — forms that add letters
- `Realization.IsSpelledIn.text_eq_nil` — forms that add nothing
- `Realization.IsSpelledIn.eq_of_text_eq` — the text of a realization tells the rest of it
-/

namespace TurkishMorphology

theorem Alphabet.isAlphanumeric_of_voice? {c v : Char} (h : voice? c = some v) :
    Text.isAlphanumeric v = true := by
  have hall : voicedChars.all Text.isAlphanumeric = true := by decide
  exact List.all_eq_true.mp hall v (mem_voicedChars_of_voice? h)

/-- Voicing changes the last letter. -/
theorem Alphabet.append_voiced_ne {c v : Char} (h : voice? c = some v) {stem : Word} :
    stem ++ [v] ≠ stem ++ [c] := by
  simpa using ne_of_voice? h

namespace Slot

/-- Whether every context fills the position with a letter or digit. -/
def isSpoken (s : Slot) : Bool :=
  !s.isOptional &&
    match s.content with
    | .consonant c | .vowel c => Text.isAlphanumeric c
    | .literal _ => false
    | .openVowel | .closeVowel _ => true
    | .devoicable c =>
      Text.isAlphanumeric c && Text.isAlphanumeric ((Alphabet.devoice? c).getD c)

theorem isAlphanumeric_letter {s : Slot} (h : s.isSpoken = true) (a : PhoneticAttributes) :
    Text.isAlphanumeric (s.content.letter a) = true := by
  simp only [isSpoken, Bool.and_eq_true] at h
  have h := h.2
  unfold Content.letter
  cases hcontent : s.content with
  | consonant c | vowel c => simpa [hcontent] using h
  | literal c => simp [hcontent] at h
  | openVowel =>
    dsimp only
    split <;> decide
  | closeVowel rounding =>
    dsimp only
    split <;> decide
  | devoicable c =>
    simp only [hcontent, Bool.and_eq_true] at h
    dsimp only
    split
    · exact h.2
    · exact h.1

/-- The letters that may fill a position. -/
def letters (s : Slot) : List Char :=
  match s.content with
  | .consonant c | .vowel c | .literal c => [c]
  | .openVowel => ['a', 'e']
  | .closeVowel _ => ['ı', 'i', 'u', 'ü']
  | .devoicable c => [c, (Alphabet.devoice? c).getD c]

theorem letter_mem_letters (s : Slot) (a : PhoneticAttributes) :
    s.content.letter a ∈ s.letters := by
  unfold letters Content.letter
  cases s.content with
  | consonant c | vowel c | literal c => exact List.mem_singleton_self c
  | openVowel =>
    dsimp only
    split <;> simp
  | closeVowel rounding =>
    dsimp only
    split <;> simp
  | devoicable c =>
    dsimp only
    split <;> simp

/-- Whether the position is filled by nothing but characters that are no letters or digits and have
    no voiced counterparts. -/
def isMute (s : Slot) : Bool :=
  s.letters.all fun c => !Text.isAlphanumeric c && (Alphabet.voice? c).isNone

theorem letter?_eq_some {s : Slot} (h : s.isOptional = false) (a : PhoneticAttributes) :
    s.letter? a = some (s.content.letter a) := by
  simp [letter?, isFilled, h]

end Slot

namespace Template

variable {slots : List Slot}

/-- Whether the template stands for a letter or digit in every context. -/
def isSpoken (t : Template) : Bool := t.slots.any Slot.isSpoken

theorem hasAlphanumeric_resolveSlots (h : slots.any Slot.isSpoken = true) (a : PhoneticAttributes) :
    (resolveSlots a slots).hasAlphanumeric = true := by
  induction slots generalizing a with
  | nil => cases h
  | cons s rest ih =>
    rw [List.any_cons, Bool.or_eq_true] at h
    rw [resolveSlots]
    rcases h with hs | hrest
    · have hfixed : s.isOptional = false := by
        simp only [Slot.isSpoken, Bool.and_eq_true, Bool.not_eq_true'] at hs
        exact hs.1
      rw [s.letter?_eq_some hfixed]
      simp [Word.hasAlphanumeric, Slot.isAlphanumeric_letter hs]
    · split
      · rw [Word.hasAlphanumeric, List.any_cons, Bool.or_eq_true]
        exact .inr (ih hrest _)
      · exact ih hrest a

theorem hasAlphanumeric_resolve {t : Template} (h : t.isSpoken = true) (a : PhoneticAttributes) :
    (t.resolve a).hasAlphanumeric = true :=
  hasAlphanumeric_resolveSlots h a

theorem mem_letters_of_mem_resolveSlots {a : PhoneticAttributes} {c : Char}
    (h : c ∈ resolveSlots a slots) : ∃ s ∈ slots, c ∈ s.letters := by
  induction slots generalizing a with
  | nil => cases h
  | cons s rest ih =>
    rw [resolveSlots] at h
    split at h
    · next d hd =>
      rcases List.mem_cons.mp h with rfl | h
      · refine ⟨s, List.mem_cons_self .., ?_⟩
        rw [Slot.letter?] at hd
        split at hd
        · cases hd
          exact s.letter_mem_letters a
        · cases hd
      · obtain ⟨t, ht, hc⟩ := ih h
        exact ⟨t, List.mem_cons_of_mem _ ht, hc⟩
    · obtain ⟨t, ht, hc⟩ := ih h
      exact ⟨t, List.mem_cons_of_mem _ ht, hc⟩

/-- Whether the template stands for no letter or digit in any context. -/
def isMute (t : Template) : Bool := t.slots.all Slot.isMute

theorem isMute_of_mem_resolve {t : Template} (h : t.isMute = true) {a : PhoneticAttributes}
    {c : Char} (hc : c ∈ t.resolve a) :
    Text.isAlphanumeric c = false ∧ Alphabet.voice? c = none := by
  obtain ⟨s, hs, hc⟩ := mem_letters_of_mem_resolveSlots hc
  simpa using List.all_eq_true.mp (List.all_eq_true.mp h s hs) c hc

/-- Whether the template stands for something in every context, or for nothing in any. -/
def isDefinite (t : Template) : Bool := t.slots.isEmpty || t.slots.any fun s => !s.isOptional

theorem resolveSlots_ne_nil (h : (slots.any fun s => !s.isOptional) = true)
    (a : PhoneticAttributes) : resolveSlots a slots ≠ [] := by
  induction slots generalizing a with
  | nil => cases h
  | cons s rest ih =>
    rw [resolveSlots]
    by_cases hfixed : s.isOptional = false
    · rw [s.letter?_eq_some hfixed]
      exact List.cons_ne_nil _ _
    · have hrest : (rest.any fun s => !s.isOptional) = true := by simpa [hfixed] using h
      split
      · exact List.cons_ne_nil _ _
      · exact ih hrest a

/-- A definite template that stands for nothing somewhere cannot start anywhere. -/
theorem starts_eq_nil {t : Template} (h : t.isDefinite = true) {a : PhoneticAttributes}
    (hresolve : t.resolve a = []) : t.starts = [] := by
  rw [isDefinite, Bool.or_eq_true] at h
  obtain hnone | hfixed := h
  · rw [starts, List.isEmpty_iff.mp hnone]
  · exact absurd hresolve (resolveSlots_ne_nil hfixed a)

/-- A context says enough to resolve any template. -/
theorem isApplicable_of_mem_contexts (t : Template) {context : PhoneticAttributes}
    (h : context ∈ Phonetics.contexts) : t.isApplicable context = true := by
  have hsays : ∀ a ∈ Phonetics.contexts,
      (a.contains .lastLetterVowel || a.contains .lastLetterConsonant) = true ∧
        (a.contains .lastLetterVoiceless || a.contains .lastLetterNotVoiceless) = true := by
    decide +kernel
  obtain ⟨hletter, hvoice⟩ := hsays context h
  rw [isApplicable, List.all_eq_true]
  intro s _
  rw [Slot.isApplicable, hletter, hvoice]
  split
  · rfl
  · split <;> rfl

end Template

namespace Realization.IsSpelledIn

variable {g : Grammar} {context : PhoneticAttributes} {r : Realization}

theorem hasAlphanumeric_text (h : r.IsSpelledIn g context)
    (ht : (g.form r.form).template.isSpoken = true) : r.text.hasAlphanumeric = true := by
  rcases h.text with ⟨htext, -⟩ | ⟨stem, c, v, -, hv, htext, -⟩
  · rw [htext, h.plain]
    exact Template.hasAlphanumeric_resolve ht context
  · rw [htext, Word.hasAlphanumeric_append]
    simp [Word.hasAlphanumeric, Alphabet.isAlphanumeric_of_voice? hv]

/-- A template without positions stands for nothing. -/
theorem text_eq_nil (h : r.IsSpelledIn g context) (ht : (g.form r.form).template.slots = []) :
    r.text = [] := by
  have hplain : r.plain = [] := by
    rw [h.plain, Template.resolve, ht]
    rfl
  rcases h.text with ⟨htext, -⟩ | ⟨stem, c, v, hstem, -⟩
  · rw [htext, hplain]
  · simp [hplain] at hstem

/-- The characters of a spelling are letters of the template, or come from voicing. -/
theorem mem_letters (h : r.IsSpelledIn g context) {c : Char} (hc : c ∈ r.text) :
    (∃ s ∈ (g.form r.form).template.slots, c ∈ s.letters) ∨ c ∈ Alphabet.voicedChars := by
  have hplain : ∀ d ∈ r.plain, ∃ s ∈ (g.form r.form).template.slots, d ∈ s.letters := by
    intro d hd
    rw [h.plain] at hd
    exact Template.mem_letters_of_mem_resolveSlots hd
  rcases h.text with ⟨htext, -⟩ | ⟨stem, d, v, hstem, hv, htext, -⟩
  · exact .inl (hplain c (htext ▸ hc))
  · rw [htext] at hc
    rcases List.mem_append.mp hc with hc | hc
    · exact .inl (hplain c (by rw [hstem]; exact List.mem_append_left _ hc))
    · exact .inr (List.mem_singleton.mp hc ▸ Alphabet.mem_voicedChars_of_voice? hv)

/-- A form without letters is spelled in one way, and no letters are added. -/
theorem text_of_isMute (h : r.IsSpelledIn g context)
    (ht : (g.form r.form).template.isMute = true) :
    r.text = r.plain ∧ r.awaits = none ∧ r.text.hasAlphanumeric = false := by
  have hmute : ∀ c ∈ r.plain, Text.isAlphanumeric c = false ∧ Alphabet.voice? c = none := by
    intro c hc
    rw [h.plain] at hc
    exact Template.isMute_of_mem_resolve ht hc
  rcases h.text with ⟨htext, hawaits⟩ | ⟨stem, c, v, hplain, hv, -⟩
  · refine ⟨htext, hawaits, ?_⟩
    rw [htext, Word.hasAlphanumeric, List.any_eq_false]
    intro c hc
    rw [(hmute c hc).1]
    exact Bool.false_ne_true
  · rw [(hmute c (by simp [hplain])).2] at hv
    cases hv

/-- In one context a spelling tells whether the final stop was voiced. -/
theorem eq_of_text_eq {s : Realization} (hr : r.IsSpelledIn g context)
    (hs : s.IsSpelledIn g context) (hform : r.form = s.form) (hsuffix : r.suffix = s.suffix)
    (htext : r.text = s.text) : r = s := by
  have hplain : r.plain = s.plain := by rw [hr.plain, hs.plain, hform]
  have hawaits : r.awaits = s.awaits := by
    rcases hr.text with ⟨hr, har⟩ | ⟨stem, c, v, hstem, hv, hr, har⟩
    · rcases hs.text with ⟨-, has⟩ | ⟨stem, c, v, hstem, hv, hs, -⟩
      · rw [har, has]
      · rw [← hr, htext, hs] at hplain
        exact absurd (hplain.trans hstem) (Alphabet.append_voiced_ne hv)
    · rcases hs.text with ⟨hs, -⟩ | ⟨-, -, -, -, -, -, has⟩
      · rw [← hs, ← htext, hr] at hplain
        exact absurd (hplain.symm.trans hstem) (Alphabet.append_voiced_ne hv)
      · rw [har, has]
  cases r
  cases s
  cases hform
  cases hsuffix
  cases htext
  cases hplain
  cases hawaits
  rfl

end Realization.IsSpelledIn

end TurkishMorphology
