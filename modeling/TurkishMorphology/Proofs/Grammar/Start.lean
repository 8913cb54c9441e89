import TurkishMorphology.Proofs.Grammar.Harmony
import TurkishMorphology.Proofs.Grammar.Template
/-!
# How templates start

Which kinds of letters a template can start with is read off its first position, and off the second
if the first can be left out. Nothing is resolved for this. Still it says exactly what resolving the
template in all contexts would say: no position but the first is optional, an optional one is filled
in some contexts and left out in others, and neither harmony nor the loss of voice makes a vowel of
a consonant.

## Main definitions

- `Template.firstSlots` — the positions that can be filled first

## Main statements

- `Slot.isVowel_of_mem_letters` — what may fill a position is of the kind of the position
- `Slot.exists_isFilled_eq` — contexts in which a position is filled, or left out
- `Template.head?_resolveSlots` — the first letter
- `Template.isBlank_iff_of_compile` — blank templates
- `Template.starts_exact` — the ways to start are those in which the template starts somewhere
-/

namespace TurkishMorphology

variable {plain mayBegin : Bool} {c : Char} {a : PhoneticAttributes}

/-- What a character can be read as. -/
theorem Template.cases_of_content {content : Slot.Content}
    (h : Template.content plain mayBegin c = .ok content) :
    content = .openVowel ∨ (∃ rounding, content = .closeVowel rounding) ∨
      (content = .devoicable c ∧ c ∈ Alphabet.devoicedChars) ∨ content = .ofChar c := by
  by_cases hA : c = 'A'
  · rw [Template.content, if_pos hA] at h
    cases h
    exact .inl rfl
  by_cases hI : c = 'I'
  · rw [Template.content, if_neg hA, if_pos hI] at h
    cases h
    exact .inr (.inl ⟨!plain, rfl⟩)
  rw [content_of_isUppercase_eq_false hA hI (isUppercase_eq_false_of_content hA hI h)] at h
  cases hdevoiced : !plain && mayBegin && Alphabet.devoicedChars.contains c with
  | true =>
    rw [hdevoiced] at h
    cases h
    simp only [Bool.and_eq_true, List.contains_iff_mem] at hdevoiced
    exact .inr (.inr (.inl ⟨rfl, hdevoiced.2⟩))
  | false =>
    rw [hdevoiced] at h
    cases h
    exact .inr (.inr (.inr rfl))

namespace Slot

variable {s : Slot}

/-- A character that stands for itself fills its position. -/
theorem letters_ofChar (c : Char) (isOptional : Bool) :
    letters ⟨.ofChar c, isOptional⟩ = [c] := by
  rw [letters, Content.ofChar]
  cases Alphabet.letter? c with
  | none => rfl
  | some l => cases hl : l.isVowel <;> simp [hl]

theorem isVowel_ofChar (c : Char) (isOptional : Bool) :
    isVowel ⟨.ofChar c, isOptional⟩ = Alphabet.isVowel c := by
  rw [isVowel, Content.ofChar, Alphabet.isVowel, Alphabet.letter]
  cases Alphabet.letter? c with
  | none => rfl
  | some l => cases hl : l.isVowel <;> simp [hl]

/-- A position for a vowel is filled by vowels only, and any other position by none. -/
theorem isVowel_of_mem_letters (h : Template.content plain mayBegin c = .ok s.content) {d : Char}
    (hd : d ∈ s.letters) : Alphabet.isVowel d = s.isVowel := by
  obtain ⟨content, isOptional⟩ := s
  rcases Template.cases_of_content h with rfl | ⟨rounding, rfl⟩ | ⟨rfl, hmem⟩ | rfl
  · have hall : ['a', 'e'].all Alphabet.isVowel = true := by decide
    exact List.all_eq_true.mp hall d hd
  · have hall : ['ı', 'i', 'u', 'ü'].all Alphabet.isVowel = true := by decide
    exact List.all_eq_true.mp hall d hd
  · have hall : Alphabet.devoicedChars.all (fun c =>
        [c, (Alphabet.devoice? c).getD c].all fun d => Alphabet.isVowel d == false) = true := by
      decide
    exact eq_of_beq (List.all_eq_true.mp (List.all_eq_true.mp hall c hmem) d hd)
  · rw [letters_ofChar, List.mem_singleton] at hd
    rw [isVowel_ofChar, hd]

theorem isOptional_of_isFilled_eq_false (h : s.isFilled a = false) : s.isOptional = true := by
  rw [isFilled, Bool.or_eq_false_iff, Bool.not_eq_false'] at h
  exact h.1

theorem letter?_of_isFilled (h : s.isFilled a = true) : s.letter? a = some (s.content.letter a) :=
  if_pos h

theorem letter?_of_isFilled_eq_false (h : s.isFilled a = false) : s.letter? a = none :=
  if_neg (by simp [h])

/-- An optional position is filled in some contexts and left out in others. A position that is not
    optional is filled in some. -/
theorem exists_isFilled_eq (s : Slot) (filled : Bool) (h : s.isOptional = false → filled = true) :
    ∃ context ∈ Phonetics.contexts, s.isFilled context = filled := by
  -- An optional vowel is left out after vowels, an optional consonant everywhere else.
  have hends : ∃ w : Word, w ≠ [] ∧ w.endsInVowel = (filled != s.isVowel) := by
    cases filled != s.isVowel with
    | true => exact ⟨['a'], by decide, by decide⟩
    | false => exact ⟨['m'], by decide, by decide⟩
  obtain ⟨w, hw, hends⟩ := hends
  refine ⟨Phonetics.ofWord w, Phonetics.ofWord_mem_contexts hw, ?_⟩
  rw [isFilled_ofWord s hw, hends]
  cases hoptional : s.isOptional with
  | false =>
    rw [h hoptional]
    rfl
  | true => cases filled <;> cases s.isVowel <;> rfl

end Slot

namespace Template

variable {isOptional : Bool} {text w : Word} {t : Template} {slots : List Slot} {s : Slot}

/-- The positions that can be filled first: the first one, and the next if the first can be left
    out. -/
def firstSlots (slots : List Slot) : List Slot :=
  slots.take (if slots.head?.any Slot.isOptional then 2 else 1)

theorem mem_firstSlots_cons {first : Slot} {rest : List Slot} :
    s ∈ firstSlots (first :: rest) ↔
      s = first ∨ first.isOptional = true ∧ rest.head? = some s := by
  cases hfirst : first.isOptional <;> cases rest <;> simp [firstSlots, hfirst, eq_comm]

theorem firstSlots_eq_nil_iff : firstSlots slots = [] ↔ slots = [] := by
  rw [firstSlots, List.take_eq_nil_iff]
  split <;> simp

theorem starts_eq_map (t : Template) : t.starts = (firstSlots t.slots).map Slot.isVowel := by
  obtain ⟨text, slots⟩ := t
  rcases slots with _ | ⟨s, _ | ⟨next, rest⟩⟩
  · rfl
  · cases hs : s.isOptional <;> simp [starts, firstSlots, hs]
  · cases hs : s.isOptional <;> simp [starts, firstSlots, hs]

/-- Nothing changes the context before the first letter. -/
theorem head?_resolveSlots (a : PhoneticAttributes) (slots : List Slot) :
    (resolveSlots a slots).head? = slots.findSome? (·.letter? a) := by
  induction slots with
  | nil => rfl
  | cons s rest ih =>
    rw [resolveSlots, List.findSome?_cons]
    cases s.letter? a with
    | none => exact ih
    | some c => rfl

/-- The first letter fills one of the first positions. -/
theorem exists_mem_firstSlots (htail : ∀ s ∈ slots.tail, s.isOptional = false)
    (h : (resolveSlots a slots).head? = some c) :
    ∃ s ∈ firstSlots slots, c = s.content.letter a := by
  rw [head?_resolveSlots] at h
  cases slots with
  | nil => cases h
  | cons first rest =>
    cases hfilled : first.isFilled a with
    | true =>
      rw [List.findSome?_cons, Slot.letter?_of_isFilled hfilled] at h
      cases h
      exact ⟨first, mem_firstSlots_cons.mpr (.inl rfl), rfl⟩
    | false =>
      have hoptional : first.isOptional = true := Slot.isOptional_of_isFilled_eq_false hfilled
      rw [List.findSome?_cons, Slot.letter?_of_isFilled_eq_false hfilled] at h
      cases rest with
      | nil => cases h
      | cons next rest =>
        rw [List.findSome?_cons,
          Slot.letter?_eq_some (htail next (List.mem_cons_self ..))] at h
        cases h
        exact ⟨next, mem_firstSlots_cons.mpr (.inr ⟨hoptional, rfl⟩), rfl⟩

/-- Each of the first positions is filled first in some context. -/
theorem exists_head?_resolveSlots (htail : ∀ s ∈ slots.tail, s.isOptional = false)
    (hs : s ∈ firstSlots slots) :
    ∃ context ∈ Phonetics.contexts,
      (resolveSlots context slots).head? = some (s.content.letter context) := by
  cases slots with
  | nil => cases hs
  | cons first rest =>
    rcases mem_firstSlots_cons.mp hs with rfl | ⟨hoptional, hnext⟩
    · obtain ⟨context, hcontext, hfilled⟩ := s.exists_isFilled_eq true fun _ => rfl
      refine ⟨context, hcontext, ?_⟩
      rw [head?_resolveSlots, List.findSome?_cons, Slot.letter?_of_isFilled hfilled]
    · obtain ⟨rest, rfl⟩ := List.head?_eq_some_iff.mp hnext
      obtain ⟨context, hcontext, hfilled⟩ := first.exists_isFilled_eq false (by simp [hoptional])
      refine ⟨context, hcontext, ?_⟩
      rw [head?_resolveSlots, List.findSome?_cons, Slot.letter?_of_isFilled_eq_false hfilled,
        List.findSome?_cons, Slot.letter?_eq_some (htail s (List.mem_cons_self ..))]

/-- A position that is read stands for a character, and only the first can be optional. -/
theorem of_getElem?_readSlots (h : readSlots isOptional plain mayBegin w = .ok slots) {i : Nat}
    (hi : slots[i]? = some s) : (0 < i → s.isOptional = false) ∧
      ∃ plain mayBegin c, Template.content plain mayBegin c = .ok s.content := by
  have hlt : i < positions w := length_readSlots h ▸ (List.getElem?_eq_some_iff.mp hi).1
  obtain ⟨before, c, after, rfl, hc, rfl⟩ := exists_of_lt_positions hlt
  obtain ⟨s', hs', hoptional, hcontent⟩ := getElem?_readSlots hc h
  obtain rfl : s = s' := Option.some_inj.mp (hi.symm.trans hs')
  refine ⟨fun hpos => ?_, _, _, c, hcontent⟩
  rw [hoptional, beq_false_of_ne (Nat.ne_of_gt hpos), Bool.and_false]

theorem exists_readSlots_of_compile (h : compile text = .ok t) :
    ∃ isOptional w, readSlots isOptional false true w = .ok t.slots := by
  by_cases hplus : text.head? = some '+'
  · obtain ⟨w, rfl⟩ := List.head?_eq_some_iff.mp hplus
    rw [compile_plus] at h
    obtain ⟨slots, hread, rfl⟩ := Except.map_eq_ok_iff.mp h
    exact ⟨true, w, hread⟩
  · rw [compile_of_head?_ne hplus] at h
    obtain ⟨slots, hread, rfl⟩ := Except.map_eq_ok_iff.mp h
    exact ⟨false, text, hread⟩

theorem isOptional_eq_false_of_mem_tail (h : compile text = .ok t) (hs : s ∈ t.slots.tail) :
    s.isOptional = false := by
  obtain ⟨isOptional, w, hread⟩ := exists_readSlots_of_compile h
  obtain ⟨i, hi⟩ := List.mem_iff_getElem?.mp hs
  rw [List.getElem?_tail] at hi
  exact (of_getElem?_readSlots hread hi).1 (Nat.succ_pos i)

/-- Whatever the context, what fills a position is a vowel exactly if the position is one for a
    vowel. -/
theorem isVowel_letter_of_mem_slots (h : compile text = .ok t) (hs : s ∈ t.slots)
    (a : PhoneticAttributes) : Alphabet.isVowel (s.content.letter a) = s.isVowel := by
  obtain ⟨isOptional, w, hread⟩ := exists_readSlots_of_compile h
  obtain ⟨i, hi⟩ := List.mem_iff_getElem?.mp hs
  obtain ⟨-, plain, mayBegin, c, hcontent⟩ := of_getElem?_readSlots hread hi
  exact Slot.isVowel_of_mem_letters hcontent (s.letter_mem_letters a)

/-- A text without positions has signs only, and signs alone are no template. -/
theorem IsWellWritten.eq_nil_of_positions (h : IsWellWritten text) (hnone : positions text = 0) :
    text = [] := by
  rcases List.eq_nil_or_concat text with rfl | ⟨before, c, rfl⟩
  · rfl
  rw [List.concat_eq_append] at h hnone
  have hsign : isSign c = true := by simpa using List.countP_eq_zero.mp hnone c (by simp)
  have hmark : c ≠ '!' := fun hc => h.last (by rw [hc, List.getLast?_concat])
  have hplus : c = '+' := by simpa [isSign, hmark] using hsign
  cases before with
  | nil => exact absurd (by rw [hplus]; rfl) h.ne_plus
  | cons d before => exact absurd (by simp [hplus]) h.plus

/-- The blank template is the one without text. -/
theorem isBlank_iff_of_compile (h : compile text = .ok t) : t.isBlank = true ↔ text = [] := by
  rw [isBlank, List.isEmpty_iff, ← List.length_eq_zero_iff, (spells_of_compile h).2.length]
  constructor
  · exact ((exists_compile_iff text).mp ⟨t, h⟩).eq_nil_of_positions
  · rintro rfl
    rfl

/-- The ways in which a template can start are those in which it starts in some context: with a
    vowel if its first letter is a vowel there, and with a consonant if it is none. Only the blank
    template, the one without text, cannot start at all. -/
theorem starts_exact (h : compile text = .ok t) :
    (∀ v, v ∈ t.starts ↔ ∃ context ∈ Phonetics.contexts, ∃ c rest,
      t.resolve context = c :: rest ∧ Alphabet.isVowel c = v) ∧
    (t.starts = [] ↔ t.isBlank = true) ∧ (t.isBlank = true ↔ text = []) := by
  have htail : ∀ s ∈ t.slots.tail, s.isOptional = false := fun s =>
    isOptional_eq_false_of_mem_tail h
  have hkind : ∀ s ∈ firstSlots t.slots, ∀ a, Alphabet.isVowel (s.content.letter a) = s.isVowel :=
    fun s hs => isVowel_letter_of_mem_slots h (List.mem_of_mem_take hs)
  refine ⟨fun v => ?_, ?_, isBlank_iff_of_compile h⟩
  · rw [starts_eq_map, List.mem_map]
    constructor
    · rintro ⟨s, hs, rfl⟩
      obtain ⟨context, hcontext, hfirst⟩ := exists_head?_resolveSlots htail hs
      obtain ⟨rest, hresolve⟩ := List.head?_eq_some_iff.mp hfirst
      exact ⟨context, hcontext, _, rest, hresolve, hkind s hs context⟩
    · rintro ⟨context, -, c, rest, hresolve, rfl⟩
      have hfirst : (resolveSlots context t.slots).head? = some c :=
        List.head?_eq_some_iff.mpr ⟨rest, hresolve⟩
      obtain ⟨s, hs, rfl⟩ := exists_mem_firstSlots htail hfirst
      exact ⟨s, hs, (hkind s hs context).symm⟩
  · rw [starts_eq_map, List.map_eq_nil_iff, firstSlots_eq_nil_iff, isBlank, List.isEmpty_iff]

/-- The dative, `+yA`, starts with a consonant after a vowel, and with a vowel otherwise. -/
theorem starts_exact_dative :
    ∃ t, compile "+yA".toList = .ok t ∧ t.starts = [false, true] ∧
      (∀ v, v ∈ t.starts ↔ ∃ context ∈ Phonetics.contexts, ∃ c rest,
        t.resolve context = c :: rest ∧ Alphabet.isVowel c = v) ∧
      (t.starts = [] ↔ t.isBlank = true) ∧ (t.isBlank = true ↔ "+yA".toList = []) := by
  have h : compile "+yA".toList =
      .ok ⟨"+yA".toList, [⟨.consonant 'y', true⟩, ⟨.openVowel, false⟩]⟩ := by decide
  exact ⟨_, h, rfl, starts_exact h⟩

end Template

end TurkishMorphology
