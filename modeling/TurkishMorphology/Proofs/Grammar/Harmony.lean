import TurkishMorphology.Proofs.Grammar.Spelling
import TurkishMorphology.Proofs.Phonetics.Contexts
/-!
# Harmony with the whole word

A template is resolved against phonetic attributes, which are updated letter by letter. If all its
letters are letters or digits, then these attributes are those of the word with what has been added
so far. So each letter of a suffix is chosen by the last vowel and the last letter that stand before
it, wherever they come from: the word, or the suffix itself.

## Main definitions

- `Word.isFrontal`, `Word.isRounded`, `Word.endsInVowel`, `Word.endsVoiceless` — the end of a word
- `Slot.letterAfter?` — the letter at a position after a word
- `Template.spell` — the letters at some positions, each chosen by the word with those before it

## Main statements

- `Slot.letter?_ofWord` — attributes say what the end of the word says
- `Template.resolve_ofWord` — templates follow the harmony of the whole word
-/

namespace TurkishMorphology

namespace Word

/-- Whether the last vowel is a front vowel. A word without vowels counts as back. -/
def isFrontal (w : Word) : Bool := w.lastVowel?.any fun v => (Alphabet.letter v).isFrontal

/-- Whether the last vowel is rounded. A word without vowels counts as unrounded. -/
def isRounded (w : Word) : Bool := w.lastVowel?.any fun v => (Alphabet.letter v).isRounded

/-- Whether the last character is a vowel. -/
def endsInVowel (w : Word) : Bool := w.getLast?.any Alphabet.isVowel

/-- Whether the last character is a voiceless consonant. -/
def endsVoiceless (w : Word) : Bool := w.getLast?.any fun c => (Alphabet.letter c).isVoiceless

end Word

namespace Phonetics

variable {w : Word} {a : PhoneticAttribute}

/-- What only last vowels report. -/
theorem contains_ofWord_of_vowel (h : w ≠ [])
    (ha : letterReports.all (fun ls => !ls.contains a) = true) :
    (ofWord w).contains a = (vowelAttributes w.lastVowel?).contains a := by
  have hletter := List.all_eq_true.mp ha _ (letterAttributes_mem (w.getLast h))
  rw [ofWord_eq h, FlagSet.contains_ofList]
  simp_all

/-- What only last letters report. -/
theorem contains_ofWord_of_letter (h : w ≠ [])
    (ha : ([.hasNoVowel] :: vowelReports).all (fun vs => !vs.contains a) = true) :
    (ofWord w).contains a = (letterAttributes (w.getLast h)).contains a := by
  have hvowel : (vowelAttributes w.lastVowel?).contains a = false := by
    cases w.lastVowel? with
    | none => simpa [vowelAttributes] using List.all_eq_true.mp ha _ (List.mem_cons_self ..)
    | some v =>
      simpa using List.all_eq_true.mp ha _ (List.mem_cons_of_mem _ (vowelAttributes_mem v))
  rw [ofWord_eq h, FlagSet.contains_ofList]
  simp_all

/-- What a last vowel reports. -/
theorem contains_vowelAttributes (v : Char) :
    (vowelAttributes (some v)).contains .lastVowelFrontal = (Alphabet.letter v).isFrontal ∧
      (vowelAttributes (some v)).contains .lastVowelRounded = (Alphabet.letter v).isRounded := by
  rw [vowelAttributes]
  cases (Alphabet.letter v).isRounded <;> cases (Alphabet.letter v).isFrontal <;> exact ⟨rfl, rfl⟩

/-- What a last letter reports. -/
theorem contains_letterAttributes (c : Char) :
    (letterAttributes c).contains .lastLetterVowel = Alphabet.isVowel c ∧
      (letterAttributes c).contains .lastLetterConsonant = !Alphabet.isVowel c ∧
        (letterAttributes c).contains .lastLetterVoiceless = (Alphabet.letter c).isVoiceless := by
  rw [letterAttributes, Alphabet.isVowel]
  generalize Alphabet.letter c = l
  cases l.isVowel <;> cases l.isVoiceless <;> cases l.isContinuant <;> exact ⟨rfl, rfl, rfl⟩

theorem contains_lastVowelFrontal_ofWord (h : w ≠ []) :
    (ofWord w).contains .lastVowelFrontal = w.isFrontal := by
  rw [contains_ofWord_of_vowel h (by decide), Word.isFrontal]
  cases w.lastVowel? with
  | none => rfl
  | some v => exact (contains_vowelAttributes v).1

theorem contains_lastVowelRounded_ofWord (h : w ≠ []) :
    (ofWord w).contains .lastVowelRounded = w.isRounded := by
  rw [contains_ofWord_of_vowel h (by decide), Word.isRounded]
  cases w.lastVowel? with
  | none => rfl
  | some v => exact (contains_vowelAttributes v).2

theorem contains_lastLetterVowel_ofWord (h : w ≠ []) :
    (ofWord w).contains .lastLetterVowel = w.endsInVowel := by
  rw [contains_ofWord_of_letter h (by decide), Word.endsInVowel, List.getLast?_eq_some_getLast h]
  exact (contains_letterAttributes _).1

theorem contains_lastLetterConsonant_ofWord (h : w ≠ []) :
    (ofWord w).contains .lastLetterConsonant = !w.endsInVowel := by
  rw [contains_ofWord_of_letter h (by decide), Word.endsInVowel, List.getLast?_eq_some_getLast h]
  exact (contains_letterAttributes _).2.1

theorem contains_lastLetterVoiceless_ofWord (h : w ≠ []) :
    (ofWord w).contains .lastLetterVoiceless = w.endsVoiceless := by
  rw [contains_ofWord_of_letter h (by decide), Word.endsVoiceless, List.getLast?_eq_some_getLast h]
  exact (contains_letterAttributes _).2.2

end Phonetics

/-- The voiceless counterparts of b, c, d and ğ. -/
def Alphabet.devoiced : Char → Char
  | 'b' => 'p'
  | 'c' => 'ç'
  | 'd' => 't'
  | 'ğ' => 'k'
  | c => c

theorem Alphabet.devoice?_getD_eq {c : Char} (hc : c ∈ devoicedChars) :
    (devoice? c).getD c = devoiced c := by
  have hall : devoicedChars.all (fun c => (devoice? c).getD c == devoiced c) = true := by decide
  simpa using List.all_eq_true.mp hall c hc

namespace Slot

/-- The letter that fills a position with the given content after a word. -/
def Content.letterAfter (content : Content) (w : Word) : Char :=
  match content with
  | .consonant c | .vowel c | .literal c => c
  | .openVowel => if w.isFrontal then 'e' else 'a'
  | .closeVowel rounding =>
    if rounding && w.isRounded then if w.isFrontal then 'ü' else 'u'
    else if w.isFrontal then 'i' else 'ı'
  | .devoicable c => if w.endsVoiceless then Alphabet.devoiced c else c

/-- The letter at a position after a word. An optional vowel is left out after a vowel, any other
    optional letter everywhere else. -/
def letterAfter? (s : Slot) (w : Word) : Option Char :=
  if s.isOptional && s.isVowel == w.endsInVowel then none else some (s.content.letterAfter w)

variable {s : Slot} {w : Word} {content : Content} {c : Char} {plain mayBegin : Prop}

theorem Content.IsFor.letter_ofWord (h : content.IsFor c plain mayBegin) (hw : w ≠ []) :
    content.letter (Phonetics.ofWord w) = content.letterAfter w := by
  unfold Content.letter Content.letterAfter
  cases hcontent : content with
  | consonant d | vowel d | literal d => rfl
  | openVowel => simp only [Phonetics.contains_lastVowelFrontal_ofWord hw]
  | closeVowel rounding =>
    simp only [Phonetics.contains_lastVowelFrontal_ofWord hw,
      Phonetics.contains_lastVowelRounded_ofWord hw]
    cases w.isFrontal <;> cases rounding && w.isRounded <;> rfl
  | devoicable d =>
    obtain ⟨rfl, hmem, -⟩ := (h.devoicable d).mp hcontent
    simp only [Phonetics.contains_lastLetterVoiceless_ofWord hw, Alphabet.devoice?_getD_eq hmem]

theorem isFilled_ofWord (s : Slot) (hw : w ≠ []) :
    s.isFilled (Phonetics.ofWord w) = !(s.isOptional && s.isVowel == w.endsInVowel) := by
  unfold isFilled
  cases s.isVowel with
  | false =>
    simp only [Bool.false_eq_true, if_false, Phonetics.contains_lastLetterVowel_ofWord hw]
    cases s.isOptional <;> cases w.endsInVowel <;> rfl
  | true =>
    simp only [if_true, Phonetics.contains_lastLetterConsonant_ofWord hw]
    cases s.isOptional <;> cases w.endsInVowel <;> rfl

/-- The attributes of a word say of it what a position needs to know. -/
theorem letter?_ofWord (h : s.content.IsFor c plain mayBegin) (hw : w ≠ []) :
    s.letter? (Phonetics.ofWord w) = s.letterAfter? w := by
  rw [letter?, letterAfter?, isFilled_ofWord s hw, h.letter_ofWord hw]
  cases s.isOptional && s.isVowel == w.endsInVowel <;> rfl

/-- A position for a letter or digit is filled by one. -/
theorem isAlphanumeric_of_letterAfter? (h : s.content.IsFor c plain mayBegin) (hw : w ≠ [])
    (hc : Text.isAlphanumeric c = true) {d : Char} (hd : s.letterAfter? w = some d) :
    Text.isAlphanumeric d = true := by
  have hd : s.content.letterAfter w = d := by
    rw [letterAfter?] at hd
    split at hd
    · cases hd
    · exact Option.some_inj.mp hd
  rw [← hd]
  rcases h.cases with hcontent | ⟨rounding, hcontent⟩ | ⟨hcontent, hmem⟩ | hfixed
  · simp only [hcontent, Content.letterAfter]
    split <;> decide
  · simp only [hcontent, Content.letterAfter]
    split <;> split <;> decide
  · have hall : Alphabet.devoicedChars.all
        (fun c => Text.isAlphanumeric (Alphabet.devoiced c)) = true := by decide
    simp only [hcontent, Content.letterAfter]
    split
    · exact List.all_eq_true.mp hall c hmem
    · exact hc
  · rw [← h.letter_ofWord hw, hfixed]
    exact hc

end Slot

namespace Template

variable {text w : Word} {slots : List Slot} {t : Template}

/-- The letters at the given positions after a word, each chosen by the word with the letters before
    it. -/
def spell (w : Word) : List Slot → Word
  | [] => []
  | s :: rest =>
    match s.letterAfter? w with
    | some c => c :: spell (w ++ [c]) rest
    | none => spell w rest

theorem resolveSlots_ofWord (hw : w ≠ [])
    (hslots : ∀ s ∈ slots, ∃ c plain mayBegin, Text.isAlphanumeric c = true ∧
      s.content.IsFor c plain mayBegin) :
    resolveSlots (Phonetics.ofWord w) slots = spell w slots := by
  induction slots generalizing w with
  | nil => rfl
  | cons s rest ih =>
    obtain ⟨⟨c, plain, mayBegin, hc, hfor⟩, hrest⟩ := List.forall_mem_cons.mp hslots
    rw [resolveSlots, spell, Slot.letter?_ofWord hfor hw]
    cases hletter : s.letterAfter? w with
    | none => exact ih hw hrest
    | some d =>
      have hd : Word.hasAlphanumeric [d] = true := by
        simpa [Word.hasAlphanumeric] using
          Slot.isAlphanumeric_of_letterAfter? hfor hw hc hletter
      dsimp only
      rw [Phonetics.after_ofWord hw hd, ih (List.append_ne_nil_of_left_ne_nil hw _) hrest]

/-- Templates follow the harmony of the whole word: each letter is the one that the word and the
    letters before it ask for, and this is what their attributes ask for. -/
theorem resolve_ofWord (ht : compile text = .ok t)
    (htext : ∀ c ∈ text, isSign c = false → Text.isAlphanumeric c = true) (hw : w ≠ []) :
    t.resolve (Phonetics.ofWord w) = spell w t.slots ∧
      ∀ s ∈ t.slots, ∀ u, u ≠ [] → s.letter? (Phonetics.ofWord u) = s.letterAfter? u := by
  obtain ⟨-, hspells⟩ := spells_of_compile ht
  refine ⟨resolveSlots_ofWord hw fun s hs => ?_, fun s hs u hu => ?_⟩
  · obtain ⟨c, hc, hsign, plain, mayBegin, hfor⟩ := hspells.exists_isFor hs
    exact ⟨c, plain, mayBegin, htext c hc hsign, hfor⟩
  · obtain ⟨c, -, -, plain, mayBegin, hfor⟩ := hspells.exists_isFor hs
    exact Slot.letter?_ofWord hfor hu

/-- The past of the copula after a voiceless consonant. -/
theorem resolve_ofWord_kitap :
    ∃ t, compile "+ydI".toList = .ok t ∧
      t.resolve (Phonetics.ofWord "kitap".toList) = "tı".toList ∧
        spell "kitap".toList t.slots = "tı".toList ∧
          ∀ s ∈ t.slots, ∀ u, u ≠ [] → s.letter? (Phonetics.ofWord u) = s.letterAfter? u := by
  have ht : compile "+ydI".toList = .ok ⟨"+ydI".toList,
      [⟨.consonant 'y', true⟩, ⟨.devoicable 'd', false⟩, ⟨.closeVowel true, false⟩]⟩ := by decide
  have hall : "+ydI".toList.all (fun c => isSign c || Text.isAlphanumeric c) = true := by decide
  have htext : ∀ c ∈ "+ydI".toList, isSign c = false → Text.isAlphanumeric c = true := by
    intro c hc hsign
    have hor := List.all_eq_true.mp hall c hc
    rwa [hsign, Bool.false_or] at hor
  have hspell : spell "kitap".toList
      [⟨.consonant 'y', true⟩, ⟨.devoicable 'd', false⟩, ⟨.closeVowel true, false⟩] =
        "tı".toList := by decide
  obtain ⟨hresolve, hletters⟩ := resolve_ofWord ht htext (by decide : "kitap".toList ≠ [])
  exact ⟨_, ht, hresolve.trans hspell, hspell, hletters⟩

end Template

end TurkishMorphology
