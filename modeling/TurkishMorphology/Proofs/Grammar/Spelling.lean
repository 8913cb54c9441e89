import TurkishMorphology.Grammar.Template
import TurkishMorphology.Proofs.Result
import Mathlib.Data.List.Basic
/-!
# How templates are written

A text is a template if a plus stands nowhere but in front, the only capitals are A and I, and the
signs in front of letters have letters to stand in front of. Every character that is no sign then
has a position of its own, in order; only a plus makes one optional, and that is the first.

## Main definitions

- `Template.isSign` — plus and exclamation mark, which say something about the next character
- `Template.IsWellWritten` — the texts that are templates
- `Slot.Content.IsFor` — what has to stand at the position of a character
- `Template.Spells` — positions that are those of a text

## Main statements

- `Template.content_of_isUppercase_eq_false` — what is read as itself, and what may lose its voice
- `Template.readSlots_cons_eq_ok_iff` — how one character is read
- `Template.exists_readSlots_iff` — which texts can be read
- `Template.getElem?_readSlots` — the position of a character
- `Template.compile_exact` — the texts that are templates, and their positions
-/

namespace TurkishMorphology

-- ════════════════════════════════════════════════════════════════════════
-- One character
-- ════════════════════════════════════════════════════════════════════════

/-- The letters that lose their voice after a voiceless letter where no letter comes surely before
    them. -/
def Alphabet.devoicedChars : List Char := ['b', 'c', 'd', 'ğ']

/-- The lowercase letters with a voiceless counterpart. -/
theorem Alphabet.isSome_devoice?_iff {c : Char} (hc : Text.isUppercase c = false) :
    (devoice? c).isSome = true ↔ c ∈ devoicedChars := by
  have hcapitals : letters.all (fun l => Text.isUppercase l.upper) = true := by decide
  have hpairs : letters.all (fun l => !(devoicedLetter? l).isSome
      || devoicedChars.contains l.char) = true := by decide
  have hsome : devoicedChars.all (fun c => (devoice? c).isSome) = true := by decide
  constructor
  · intro h
    obtain ⟨v, hv⟩ := Option.isSome_iff_exists.mp h
    obtain ⟨l, hl, hv⟩ := Option.bind_eq_some_iff.mp hv
    obtain ⟨m, hm, -⟩ := Option.bind_eq_some_iff.mp hv
    obtain ⟨hmem, hchar | hupper⟩ := mem_of_letter? hl
    · have hpair := List.all_eq_true.mp hpairs l hmem
      simpa [hm, hchar] using hpair
    · have hcapital := List.all_eq_true.mp hcapitals l hmem
      rw [hupper, hc] at hcapital
      cases hcapital
  · exact fun h => List.all_eq_true.mp hsome c h

namespace Slot.Content

/-- What has to stand at the position of a character. `plain` says that a `!` stands directly before
    the character, `mayBegin` that no letter comes surely before it. -/
structure IsFor (content : Content) (c : Char) (plain mayBegin : Prop) : Prop where
  openVowel : c = 'A' → content = .openVowel
  closeVowel : c = 'I' → ∃ rounding, content = .closeVowel rounding ∧ (rounding = true ↔ ¬ plain)
  devoicable : ∀ d, content = .devoicable d ↔
    d = c ∧ c ∈ Alphabet.devoicedChars ∧ ¬ plain ∧ mayBegin
  fixed : c ≠ 'A' → c ≠ 'I' → (∀ d, content ≠ .devoicable d) → ∀ a, content.letter a = c

/-- What a character that stands for itself is read as. -/
def ofChar (c : Char) : Content :=
  (Alphabet.letter? c).elim (.literal c) fun l => if l.isVowel then .vowel c else .consonant c

theorem letter_ofChar (c : Char) (a : PhoneticAttributes) : (ofChar c).letter a = c := by
  unfold ofChar
  cases Alphabet.letter? c with
  | none => rfl
  | some l => cases hl : l.isVowel <;> simp [hl, letter]

theorem ofChar_ne_devoicable (c d : Char) : ofChar c ≠ .devoicable d := by
  unfold ofChar
  cases Alphabet.letter? c with
  | none => simp
  | some l => cases hl : l.isVowel <;> simp [hl]

/-- The four kinds of positions. -/
theorem IsFor.cases {content : Content} {c : Char} {plain mayBegin : Prop}
    (h : content.IsFor c plain mayBegin) :
    content = .openVowel ∨ (∃ rounding, content = .closeVowel rounding) ∨
      (content = .devoicable c ∧ c ∈ Alphabet.devoicedChars) ∨ ∀ a, content.letter a = c := by
  by_cases hA : c = 'A'
  · exact .inl (h.openVowel hA)
  by_cases hI : c = 'I'
  · obtain ⟨rounding, hcontent, -⟩ := h.closeVowel hI
    exact .inr (.inl ⟨rounding, hcontent⟩)
  by_cases hdevoicable : ∃ d, content = .devoicable d
  · obtain ⟨d, hcontent⟩ := hdevoicable
    obtain ⟨rfl, hmem, -⟩ := (h.devoicable d).mp hcontent
    exact .inr (.inr (.inl ⟨hcontent, hmem⟩))
  · exact .inr (.inr (.inr (h.fixed hA hI (not_exists.mp hdevoicable))))

end Slot.Content

namespace Template

variable {isOptional plain mayBegin : Bool} {w before after : Word} {c : Char} {slots : List Slot}

/-- A character that is no capital stands for itself or loses its voice. -/
theorem content_of_isUppercase_eq_false (hA : c ≠ 'A') (hI : c ≠ 'I')
    (hc : Text.isUppercase c = false) : Template.content plain mayBegin c =
      .ok (if !plain && mayBegin && Alphabet.devoicedChars.contains c then .devoicable c
        else .ofChar c) := by
  have hconsonants : Alphabet.devoicedChars.all
      (fun c => (Alphabet.letter? c).any fun l => !l.isVowel) = true := by decide
  have hdevoice := Alphabet.isSome_devoice?_iff hc
  rw [Template.content, if_neg hA, if_neg hI, hc, Slot.Content.ofChar]
  cases hmem : Alphabet.devoicedChars.contains c with
  | true =>
    have hletter := List.all_eq_true.mp hconsonants c (List.contains_iff_mem.mp hmem)
    have hsome := hdevoice.mpr (List.contains_iff_mem.mp hmem)
    cases hl : Alphabet.letter? c with
    | none => simp [hl] at hletter
    | some l =>
      have hvowel : l.isVowel = false := by simpa [hl] using hletter
      cases plain <;> cases mayBegin <;> simp [hvowel, hsome]
  | false =>
    have hnone : (Alphabet.devoice? c).isSome = false := by
      rw [← Bool.not_eq_true, hdevoice, ← List.contains_iff_mem, hmem]
      decide
    cases Alphabet.letter? c with
    | none => simp
    | some l => cases hvowel : l.isVowel <;> simp [hnone, hvowel]

/-- A character can be read unless it is a capital other than A and I. -/
theorem exists_content_iff (plain mayBegin : Bool) (c : Char) :
    (∃ content, Template.content plain mayBegin c = .ok content) ↔
      (Text.isUppercase c = true → c = 'A' ∨ c = 'I') := by
  by_cases hA : c = 'A'
  · simp [Template.content, hA]
  by_cases hI : c = 'I'
  · simp [Template.content, hI]
  cases hc : Text.isUppercase c with
  | true => simp [Template.content, hA, hI, hc]
  | false => simp [content_of_isUppercase_eq_false hA hI hc]

/-- A character that can be read and is neither A nor I is no capital. -/
theorem isUppercase_eq_false_of_content {content : Slot.Content} (hA : c ≠ 'A') (hI : c ≠ 'I')
    (h : Template.content plain mayBegin c = .ok content) : Text.isUppercase c = false := by
  have hcapital := (exists_content_iff plain mayBegin c).mp ⟨content, h⟩
  simpa [hA, hI] using hcapital

theorem isFor_of_content {content : Slot.Content}
    (h : Template.content plain mayBegin c = .ok content) :
    content.IsFor c (plain = true) (mayBegin = true) := by
  by_cases hA : c = 'A'
  · subst hA
    cases h
    exact ⟨fun _ => rfl, by simp, by simp [Alphabet.devoicedChars], fun hne => absurd rfl hne⟩
  by_cases hI : c = 'I'
  · subst hI
    cases h
    exact ⟨by simp, fun _ => ⟨!plain, rfl, by simp⟩, by simp [Alphabet.devoicedChars],
      fun _ hne => absurd rfl hne⟩
  rw [content_of_isUppercase_eq_false hA hI (isUppercase_eq_false_of_content hA hI h)] at h
  cases hdevoiced : !plain && mayBegin && Alphabet.devoicedChars.contains c with
  | true =>
    rw [hdevoiced] at h
    cases h
    simp only [Bool.and_eq_true, Bool.not_eq_true', List.contains_iff_mem] at hdevoiced
    obtain ⟨⟨hplain, hmay⟩, hmem⟩ := hdevoiced
    exact ⟨fun e => absurd e hA, fun e => absurd e hI,
      fun d => by simp [hplain, hmay, hmem, eq_comm], fun _ _ hne => absurd rfl (hne c)⟩
  | false =>
    rw [hdevoiced] at h
    cases h
    refine ⟨fun e => absurd e hA, fun e => absurd e hI, fun d => ⟨fun hd => ?_, ?_⟩,
      fun _ _ _ => Slot.Content.letter_ofChar c⟩
    · exact absurd hd (Slot.Content.ofChar_ne_devoicable c d)
    · rintro ⟨-, hmem, hplain, hmay⟩
      simp [hmem, hplain, hmay] at hdevoiced

-- ════════════════════════════════════════════════════════════════════════
-- One character after another
-- ════════════════════════════════════════════════════════════════════════

/-- Plus and exclamation mark, which take no position of their own. -/
def isSign (c : Char) : Bool := c == '+' || c == '!'

/-- The number of positions that a text takes. -/
def positions (w : Word) : Nat := w.countP fun c => !isSign c

theorem positions_cons_of_isSign (h : isSign c = true) : positions (c :: w) = positions w :=
  List.countP_cons_of_neg (by simp [h])

theorem positions_cons_of_isSign_eq_false (h : isSign c = false) :
    positions (c :: w) = positions w + 1 :=
  List.countP_cons_of_pos (by simp [h])

/-- Each position is that of a character. -/
theorem exists_of_lt_positions {i : Nat} (h : i < positions w) :
    ∃ before c after, w = before ++ c :: after ∧ isSign c = false ∧ positions before = i := by
  induction w generalizing i with
  | nil => cases h
  | cons c cs ih =>
    cases hc : isSign c with
    | true =>
      rw [positions_cons_of_isSign hc] at h
      obtain ⟨before, d, after, rfl, hd, rfl⟩ := ih h
      exact ⟨c :: before, d, after, rfl, hd, positions_cons_of_isSign hc⟩
    | false =>
      cases i with
      | zero => exact ⟨[], c, cs, rfl, hc, rfl⟩
      | succ i =>
        rw [positions_cons_of_isSign_eq_false hc] at h
        obtain ⟨before, d, after, rfl, hd, rfl⟩ := ih (Nat.lt_of_succ_lt_succ h)
        exact ⟨c :: before, d, after, rfl, hd, positions_cons_of_isSign_eq_false hc⟩

/-- An exclamation mark is remembered, any other character but a plus takes a position. -/
theorem readSlots_cons_eq_ok_iff :
    readSlots isOptional plain mayBegin (c :: w) = .ok slots ↔
      c = '!' ∧ readSlots isOptional true mayBegin w = .ok slots ∨
        isSign c = false ∧ ∃ content rest, Template.content plain mayBegin c = .ok content ∧
          readSlots false false (mayBegin && isOptional) w = .ok rest ∧
          slots = ⟨content, isOptional⟩ :: rest := by
  rw [readSlots]
  by_cases hplus : c = '+'
  · simp [hplus, isSign]
  by_cases hmark : c = '!'
  · simp [hmark, isSign]
  have hsign : isSign c = false := by simp [isSign, hplus, hmark]
  simp only [hplus, hmark, if_false, hsign, Except.bind_eq_ok_iff, pure, Except.pure,
    Except.ok.injEq, false_and, false_or, true_and, eq_comm (a := slots), ← exists_and_left]

/-- A text can be read if its first position and the rest can. -/
theorem exists_readSlots_cons_iff (hc : isSign c = false) :
    (∃ slots, readSlots isOptional plain mayBegin (c :: w) = .ok slots) ↔
      (Text.isUppercase c = true → c = 'A' ∨ c = 'I') ∧
        ∃ rest, readSlots false false (mayBegin && isOptional) w = .ok rest := by
  rw [← exists_content_iff plain mayBegin]
  constructor
  · rintro ⟨slots, h⟩
    rcases readSlots_cons_eq_ok_iff.mp h with ⟨rfl, -⟩ | ⟨-, content, rest, hcontent, hrest, -⟩
    · cases hc
    · exact ⟨⟨content, hcontent⟩, rest, hrest⟩
  · rintro ⟨⟨content, hcontent⟩, rest, hrest⟩
    exact ⟨_, readSlots_cons_eq_ok_iff.mpr (.inr ⟨hc, content, rest, hcontent, hrest, rfl⟩)⟩

/-- Which texts can be read. The signs pending at the start need a character to apply to. -/
theorem exists_readSlots_iff :
    (∃ slots, readSlots isOptional plain mayBegin w = .ok slots) ↔
      '+' ∉ w ∧ (∀ c ∈ w, Text.isUppercase c = true → c = 'A' ∨ c = 'I') ∧
        w.getLast? ≠ some '!' ∧ (w = [] → isOptional = false ∧ plain = false) := by
  induction w generalizing isOptional plain mayBegin with
  | nil => cases isOptional <;> cases plain <;> simp [readSlots]
  | cons c cs ih =>
    have hlast : (c :: cs).getLast? ≠ some '!' ↔
        cs.getLast? ≠ some '!' ∧ (c = '!' → cs ≠ []) := by
      cases cs <;> simp [List.getLast?_cons]
    rw [hlast, List.forall_mem_cons, List.mem_cons, not_or]
    by_cases hplus : c = '+'
    · simp [readSlots_cons_eq_ok_iff, hplus, isSign]
    by_cases hmark : c = '!'
    · have hcapital : Text.isUppercase '!' = false := by decide
      simp [readSlots_cons_eq_ok_iff, hmark, isSign, ih, hcapital]
    · rw [exists_readSlots_cons_iff (by simp [isSign, hplus, hmark]), ih]
      simp only [hmark, Ne.symm hplus, false_implies, and_true, implies_true, not_false_eq_true,
        true_and, reduceCtorEq]
      tauto

/-- The position of a character that is no sign, read after the characters before it. -/
theorem getElem?_readSlots (hc : isSign c = false)
    (h : readSlots isOptional plain mayBegin (before ++ c :: after) = .ok slots) :
    ∃ s, slots[positions before]? = some s ∧
      s.isOptional = (isOptional && positions before == 0) ∧
      Template.content (before.getLast?.elim plain (· == '!'))
        (mayBegin && (positions before == 0 || isOptional && positions before == 1)) c
          = .ok s.content := by
  induction before generalizing isOptional plain mayBegin slots with
  | nil =>
    rcases readSlots_cons_eq_ok_iff.mp h with ⟨rfl, -⟩ | ⟨-, content, rest, hcontent, -, rfl⟩
    · cases hc
    · exact ⟨⟨content, isOptional⟩, rfl, by simp [positions], by simpa [positions] using hcontent⟩
  | cons d ds ih =>
    rcases readSlots_cons_eq_ok_iff.mp h with ⟨rfl, h⟩ | ⟨hd, content, rest, -, hrest, rfl⟩
    · obtain ⟨s, hs, hoptional, hcontent⟩ := ih h
      rw [positions_cons_of_isSign rfl]
      refine ⟨s, hs, hoptional, ?_⟩
      rw [← hcontent, List.getLast?_cons]
      cases ds.getLast? <;> simp
    · obtain ⟨s, hs, hoptional, hcontent⟩ := ih hrest
      rw [positions_cons_of_isSign_eq_false hd]
      refine ⟨s, hs, by simp [hoptional], ?_⟩
      have hd : (d == '!') = false := (Bool.or_eq_false_iff.mp hd).2
      rw [← hcontent, List.getLast?_cons]
      cases ds.getLast? <;> simp [hd, Bool.and_assoc, Bool.and_comm isOptional]

/-- What is read from the start stands for its character. -/
theorem exists_slot_of_readSlots (hc : isSign c = false)
    (h : readSlots isOptional false true (before ++ c :: after) = .ok slots) :
    ∃ s, slots[positions before]? = some s ∧
      (s.isOptional = true ↔ isOptional = true ∧ positions before = 0) ∧
      s.content.IsFor c (before.getLast? = some '!')
        (positions before = 0 ∨ isOptional = true ∧ positions before = 1) := by
  obtain ⟨s, hs, hoptional, hcontent⟩ := getElem?_readSlots hc h
  refine ⟨s, hs, by simp [hoptional], ?_⟩
  have hmark : (before.getLast?.elim false (· == '!')) = true ↔ before.getLast? = some '!' := by
    cases before.getLast? <;> simp
  have hfor := isFor_of_content hcontent
  rw [hmark] at hfor
  simpa using hfor

theorem length_readSlots (h : readSlots isOptional plain mayBegin w = .ok slots) :
    slots.length = positions w := by
  induction w generalizing isOptional plain mayBegin slots with
  | nil =>
    rw [readSlots] at h
    split at h
    · cases h
    · cases h
      rfl
  | cons c cs ih =>
    rcases readSlots_cons_eq_ok_iff.mp h with ⟨rfl, h⟩ | ⟨hc, content, rest, -, hrest, rfl⟩
    · rw [ih h, positions_cons_of_isSign rfl]
    · rw [List.length_cons, ih hrest, positions_cons_of_isSign_eq_false hc]

-- ════════════════════════════════════════════════════════════════════════
-- Whole texts
-- ════════════════════════════════════════════════════════════════════════

/-- Texts that are templates. -/
structure IsWellWritten (text : Word) : Prop where
  plus : '+' ∉ text.tail
  capitals : ∀ c ∈ text, Text.isUppercase c = true → c = 'A' ∨ c = 'I'
  ne_plus : text ≠ ['+']
  last : text.getLast? ≠ some '!'

/-- The slots are the positions of the text: one for each character that is no sign, in order. Only
    the first can be optional, and it is if a plus stands in front. -/
structure Spells (slots : List Slot) (text : Word) : Prop where
  length : slots.length = positions text
  slot : ∀ before c after, text = before ++ c :: after → isSign c = false →
    ∃ s, slots[positions before]? = some s ∧
      (s.isOptional = true ↔ text.head? = some '+' ∧ positions before = 0) ∧
      s.content.IsFor c (before.getLast? = some '!')
        (positions before = 0 ∨ text.head? = some '+' ∧ positions before = 1)

/-- Every slot stands for a character of the text. -/
theorem Spells.exists_isFor {text : Word} (h : Spells slots text) {s : Slot} (hs : s ∈ slots) :
    ∃ c ∈ text, isSign c = false ∧ ∃ plain mayBegin, s.content.IsFor c plain mayBegin := by
  obtain ⟨i, hi⟩ := List.mem_iff_getElem?.mp hs
  have hlt : i < positions text := h.length ▸ (List.getElem?_eq_some_iff.mp hi).1
  obtain ⟨before, c, after, htext, hc, rfl⟩ := exists_of_lt_positions hlt
  obtain ⟨t, ht, -, hfor⟩ := h.slot before c after htext hc
  obtain rfl : s = t := Option.some_inj.mp (hi.symm.trans ht)
  have hmem : c ∈ text := htext ▸ List.mem_append_right _ (List.mem_cons_self ..)
  exact ⟨c, hmem, hc, _, _, hfor⟩

theorem compile_plus (w : Word) :
    compile ('+' :: w) = (readSlots true false true w).map fun slots => ⟨'+' :: w, slots⟩ := rfl

theorem compile_of_head?_ne (h : w.head? ≠ some '+') :
    compile w = (readSlots false false true w).map fun slots => ⟨w, slots⟩ := by
  unfold compile
  split
  · simp at h
  · rfl

theorem exists_compile_iff (text : Word) : (∃ t, compile text = .ok t) ↔ IsWellWritten text := by
  by_cases hplus : text.head? = some '+'
  · obtain ⟨cs, rfl⟩ := List.head?_eq_some_iff.mp hplus
    rw [compile_plus, Except.exists_map_eq_ok_iff, exists_readSlots_iff]
    constructor
    · rintro ⟨hsign, hcapitals, hlast, hne⟩
      have hcs : cs ≠ [] := fun h => by simpa using hne h
      refine ⟨hsign, List.forall_mem_cons.mpr ⟨by decide, hcapitals⟩, by simpa using hcs, ?_⟩
      rwa [List.getLast?_cons_of_ne_nil hcs]
    · rintro ⟨hsign, hcapitals, hne, hlast⟩
      have hcs : cs ≠ [] := fun h => hne (by rw [h])
      rw [List.getLast?_cons_of_ne_nil hcs] at hlast
      exact ⟨hsign, fun c hc => hcapitals c (List.mem_cons_of_mem _ hc), hlast,
        fun h => absurd h hcs⟩
  · rw [compile_of_head?_ne hplus, Except.exists_map_eq_ok_iff, exists_readSlots_iff]
    have hsign : '+' ∉ text ↔ '+' ∉ text.tail := by
      cases text with
      | nil => rfl
      | cons c cs =>
        have hc : '+' ≠ c := fun h => hplus (by rw [h]; rfl)
        simp [hc]
    rw [hsign]
    constructor
    · rintro ⟨hsign, hcapitals, hlast, -⟩
      exact ⟨hsign, hcapitals, fun h => hplus (by rw [h]; rfl), hlast⟩
    · rintro ⟨hsign, hcapitals, -, hlast⟩
      exact ⟨hsign, hcapitals, hlast, fun _ => ⟨rfl, rfl⟩⟩

theorem spells_of_compile {text : Word} {t : Template} (h : compile text = .ok t) :
    t.text = text ∧ Spells t.slots text := by
  by_cases hplus : text.head? = some '+'
  · obtain ⟨cs, rfl⟩ := List.head?_eq_some_iff.mp hplus
    rw [compile_plus] at h
    obtain ⟨slots, hread, rfl⟩ := Except.map_eq_ok_iff.mp h
    refine ⟨rfl, by rw [length_readSlots hread, positions_cons_of_isSign rfl], ?_⟩
    intro before c after htext hc
    -- The plus is one of the characters before.
    cases before with
    | nil =>
      cases htext
      cases hc
    | cons d ds =>
      obtain ⟨rfl, rfl⟩ : '+' = d ∧ cs = ds ++ c :: after := by simpa using htext
      have hlast : ('+' :: ds).getLast? = some '!' ↔ ds.getLast? = some '!' := by
        cases ds <;> simp [List.getLast?_cons]
      obtain ⟨s, hs⟩ := exists_slot_of_readSlots hc hread
      rw [positions_cons_of_isSign rfl, hlast]
      exact ⟨s, by simpa using hs⟩
  · rw [compile_of_head?_ne hplus] at h
    obtain ⟨slots, hread, rfl⟩ := Except.map_eq_ok_iff.mp h
    refine ⟨rfl, length_readSlots hread, ?_⟩
    intro before c after htext hc
    obtain ⟨s, hs⟩ := exists_slot_of_readSlots hc (htext ▸ hread)
    exact ⟨s, by simpa [hplus] using hs⟩

/-- The texts that are templates, and what they are read as. -/
theorem compile_exact (text : Word) :
    ((∃ t, compile text = .ok t) ↔ IsWellWritten text) ∧
      ∀ t, compile text = .ok t → t.text = text ∧ Spells t.slots text :=
  ⟨exists_compile_iff text, fun _ h => spells_of_compile h⟩

/-- The past of the copula, `+ydI`. -/
theorem compile_exact_copula :
    compile ['+', 'y', 'd', 'I'] = .ok ⟨['+', 'y', 'd', 'I'],
        [⟨.consonant 'y', true⟩, ⟨.devoicable 'd', false⟩, ⟨.closeVowel true, false⟩]⟩ ∧
      IsWellWritten ['+', 'y', 'd', 'I'] ∧
      Spells [⟨.consonant 'y', true⟩, ⟨.devoicable 'd', false⟩, ⟨.closeVowel true, false⟩]
        ['+', 'y', 'd', 'I'] := by
  have h : compile ['+', 'y', 'd', 'I'] = .ok ⟨['+', 'y', 'd', 'I'],
      [⟨.consonant 'y', true⟩, ⟨.devoicable 'd', false⟩, ⟨.closeVowel true, false⟩]⟩ := by decide
  obtain ⟨hwritten, hspells⟩ := compile_exact ['+', 'y', 'd', 'I']
  exact ⟨h, hwritten.mp ⟨_, h⟩, (hspells _ h).2⟩

end Template

end TurkishMorphology
