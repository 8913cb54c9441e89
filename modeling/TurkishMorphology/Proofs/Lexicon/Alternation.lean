import TurkishMorphology.Proofs.Lexicon.Stem
import Mathlib.Data.List.Basic
/-!
# What becomes of a stem

What all changes of a stem together come to: whether it is altered in the end, and what the
unaltered and the altered root expect. A stem is altered unless the changes cancel, which is a
matter of how many letters are added and removed.

## Main definitions

- `Word.VoicesTo` — a word with its final stop voiced
- `Lexeme.HasOnly` — lexemes with one attribute that asks for an altered root

## Main statements

- `Alternation.voiceStop_lemmaRoot_eq_ok_iff` — what voicing makes of the lemma root
- `Alternation.stem_eq_lemmaRoot_iff` — when the changes cancel
- `Alternation.contains_consonantStart_unaltered` — when the unaltered root wants a consonant
- `Lexeme.exists_alternation_of_mem_roots` — which roots there are after all changes
- `Lexeme.roots_of_hasOnly` — the roots after a single change
-/

namespace TurkishMorphology

-- ════════════════════════════════════════════════════════════════════════
-- Words
-- ════════════════════════════════════════════════════════════════════════

/-- Every voiceless stop can be voiced. -/
theorem Alphabet.exists_voice?_of_isVoicelessStop {c : Char}
    (h : (letter c).isVoicelessStop = true) : ∃ v, voice? c = some v := by
  have hall : letters.all (fun l => !l.isVoicelessStop || (voicedLetter? l).isSome) = true := by
    decide
  unfold letter at h
  cases hl : letter? c with
  | none =>
    rw [hl] at h
    cases h
  | some l =>
    rw [hl] at h
    have hvoiced := List.all_eq_true.mp hall l (mem_of_letter? hl).1
    rw [show l.isVoicelessStop = true from h, Bool.not_true, Bool.false_or] at hvoiced
    obtain ⟨m, hm⟩ := Option.isSome_iff_exists.mp hvoiced
    exact ⟨inCaseOf c l m, by simp [voice?, hl, hm]⟩

namespace Word

variable {w v front : Word} {c d : Char}

/-- The word with its final stop voiced: k after n becomes g, any other stop its counterpart. -/
inductive VoicesTo : Word → Word → Prop
  | velar (front : Word) : VoicesTo (front ++ ['n', 'k']) (front ++ ['n', 'g'])
  | counterpart {front : Word} {c v : Char} (other : ¬ ['n', 'k'] <:+ front ++ [c])
      (voiced : Alphabet.voice? c = some v) : VoicesTo (front ++ [c]) (front ++ [v])

theorem VoicesTo.length_eq (h : VoicesTo w v) : v.length = w.length := by
  cases h <;> simp

theorem VoicesTo.ne (h : VoicesTo w v) : v ≠ w := by
  cases h with
  | velar front => simp
  | counterpart _ voiced =>
    intro heq
    exact Alphabet.ne_of_voice? voiced (by simpa using heq)

theorem exists_voicesTo (hlast : w.getLast? = some c)
    (hstop : (Alphabet.letter c).isVoicelessStop = true) : ∃ v, VoicesTo w v := by
  by_cases hnk : ['n', 'k'] <:+ w
  · obtain ⟨front, rfl⟩ := hnk
    exact ⟨_, .velar front⟩
  · obtain ⟨front, rfl⟩ := List.getLast?_eq_some_iff.mp hlast
    obtain ⟨v, hv⟩ := Alphabet.exists_voice?_of_isVoicelessStop hstop
    exact ⟨_, .counterpart hnk hv⟩

theorem withLast_append_singleton (front : Word) (c v : Char) :
    withLast (front ++ [c]) v = front ++ [v] := by
  simp [withLast]

theorem withLast_append_pair (front : Word) (b c v : Char) :
    withLast (front ++ [b, c]) v = front ++ [b, v] := by
  simpa using withLast_append_singleton (front ++ [b]) c v

theorem voicesTo_iff : VoicesTo w v ↔
    ∃ x, (if ['n', 'k'].isSuffixOf w then some 'g' else w.getLast?.bind Alphabet.voice?) = some x ∧
      v = w.withLast x := by
  constructor
  · intro h
    cases h with
    | velar front =>
      refine ⟨'g', if_pos ?_, (withLast_append_pair ..).symm⟩
      exact List.isSuffixOf_iff_suffix.mpr (List.suffix_append _ _)
    | @counterpart front c x other voiced =>
      refine ⟨x, ?_, (withLast_append_singleton ..).symm⟩
      rw [if_neg (mt List.isSuffixOf_iff_suffix.mp other), List.getLast?_concat]
      exact voiced
  · rintro ⟨x, hx, rfl⟩
    split at hx
    · next hnk =>
      obtain ⟨front, rfl⟩ := List.isSuffixOf_iff_suffix.mp hnk
      cases hx
      rw [withLast_append_pair]
      exact .velar front
    · next hnk =>
      obtain ⟨c, hc, hvoice⟩ := Option.bind_eq_some_iff.mp hx
      obtain ⟨front, rfl⟩ := List.getLast?_eq_some_iff.mp hc
      rw [withLast_append_singleton]
      exact .counterpart (mt List.isSuffixOf_iff_suffix.mpr hnk) hvoice

theorem eraseIdx_append_cons (front : Word) (c : Char) (back : Word) :
    (front ++ c :: back).eraseIdx ((front ++ c :: back).length - (back.length + 1)) =
      front ++ back := by
  have hplace : (front ++ c :: back).length - (back.length + 1) = front.length := by
    rw [List.length_append, List.length_cons, Nat.add_sub_cancel]
  rw [hplace, List.eraseIdx_append_of_length_le (Nat.le_refl _), Nat.sub_self]
  rfl

/-- A letter that is written twice at the end is left once when the first of the two is erased. -/
theorem eraseIdx_append_getLast (h : w.getLast? = some c) :
    (w ++ [c]).eraseIdx ((w ++ [c]).length - 2) = w := by
  obtain ⟨front, rfl⟩ := List.getLast?_eq_some_iff.mp h
  rw [List.append_assoc]
  exact eraseIdx_append_cons front c [c]

end Word

-- ════════════════════════════════════════════════════════════════════════
-- Each change
-- ════════════════════════════════════════════════════════════════════════

namespace Alternation

variable {l : Lexeme} {a b c d : Alternation}

theorem voiceStop_lemmaRoot_eq_ok_iff : voiceStop l { stem := l.lemmaRoot } = .ok b ↔
    if l.isVoiced then ∃ stem, Word.VoicesTo l.lemmaRoot stem ∧
      b = change { stem := l.lemmaRoot } stem (!l.has .voicingOpt)
    else b = { stem := l.lemmaRoot } := by
  rw [voiceStop_eq_ok_iff]
  simp only [Word.voicesTo_iff]
  split
  · constructor
    · rintro ⟨x, hx, rfl⟩
      exact ⟨_, ⟨x, hx, rfl⟩, rfl⟩
    · rintro ⟨_, ⟨x, hx, rfl⟩, rfl⟩
      exact ⟨x, hx, rfl⟩
  · rfl

theorem voiceStop_of_not (h : l.isVoiced = false) (a : Alternation) : voiceStop l a = .ok a :=
  if_neg (ne_true_of_eq_false h)

theorem doubleLast_of_not (h : l.has .doubling = false) (a : Alternation) :
    doubleLast l a = .ok a :=
  if_neg (ne_true_of_eq_false h)

theorem dropLastVowel_of_not (h : l.has .lastVowelDrop = false) (a : Alternation) :
    dropLastVowel l a = .ok a :=
  if_neg (ne_true_of_eq_false h)

theorem dropFinal_of_not (h : l.has .progressiveVowelDrop = false) (a : Alternation) :
    dropFinal l a = .ok a :=
  if_neg (ne_true_of_eq_false h)

theorem length_of_voiceStop (h : voiceStop l { stem := l.lemmaRoot } = .ok b) :
    b.stem.length = l.lemmaRoot.length := by
  rw [voiceStop_lemmaRoot_eq_ok_iff] at h
  split at h
  · obtain ⟨stem, hvoices, rfl⟩ := h
    exact hvoices.length_eq
  · rw [h]

theorem length_of_doubleLast (h : doubleLast l a = .ok b) :
    b.stem.length = a.stem.length + (l.has .doubling).toNat := by
  rw [doubleLast_eq_ok_iff] at h
  split at h
  · next hasks =>
    obtain ⟨x, -, rfl⟩ := h
    simp [change, hasks]
  · next hasks => simp [h, hasks]

theorem length_of_dropLastVowel (h : dropLastVowel l a = .ok b) :
    b.stem.length + (l.has .lastVowelDrop).toNat = a.stem.length := by
  rw [dropLastVowel_eq_ok_iff] at h
  split at h
  · next hasks =>
    obtain ⟨hlength, rfl⟩ := h
    have hinside : a.stem.length - 2 < a.stem.length := by omega
    simp only [change, hasks, List.length_eraseIdx_of_lt hinside, Bool.toNat_true]
    omega
  · next hasks => simp [h, hasks]

theorem length_of_dropFinal (h : dropFinal l a = .ok b) :
    b.stem.length + (l.has .progressiveVowelDrop).toNat = a.stem.length := by
  rw [dropFinal_eq_ok_iff] at h
  split at h
  · next hasks =>
    obtain ⟨hne, rfl⟩ := h
    have hpos := List.length_pos_of_ne_nil hne
    simp only [change, hasks, List.length_dropLast, Bool.toNat_true]
    omega
  · next hasks => simp [h, hasks]

/-- How the number of letters changes. -/
theorem length_of_dropping (hdoubled : doubleLast l a = .ok b)
    (hdropped : dropLastVowel l b = .ok c) (hfinal : dropFinal l c = .ok d) :
    d.stem.length + (l.has .lastVowelDrop).toNat + (l.has .progressiveVowelDrop).toNat =
      a.stem.length + (l.has .doubling).toNat := by
  have hbefore := length_of_doubleLast hdoubled
  have hwithin := length_of_dropLastVowel hdropped
  have hafter := length_of_dropFinal hfinal
  omega

/-- Where as many letters are dropped as were doubled, the stem is as it was before. -/
theorem stem_eq_of_dropping (hdoubled : doubleLast l a = .ok b)
    (hdropped : dropLastVowel l b = .ok c) (hfinal : dropFinal l c = .ok d)
    (hcount : (l.has .doubling).toNat =
      (l.has .lastVowelDrop).toNat + (l.has .progressiveVowelDrop).toNat) :
    d.stem = a.stem := by
  rw [doubleLast_eq_ok_iff] at hdoubled
  rw [dropLastVowel_eq_ok_iff] at hdropped
  rw [dropFinal_eq_ok_iff] at hfinal
  cases hdoubles : l.has .doubling with
  | false =>
    rw [hdoubles, Bool.toNat_false] at hcount
    have hinside : l.has .lastVowelDrop = false := Bool.toNat_eq_zero.mp (by omega)
    have hend : l.has .progressiveVowelDrop = false := Bool.toNat_eq_zero.mp (by omega)
    rw [if_neg (ne_true_of_eq_false hdoubles)] at hdoubled
    rw [if_neg (ne_true_of_eq_false hinside)] at hdropped
    rw [if_neg (ne_true_of_eq_false hend)] at hfinal
    rw [hfinal, hdropped, hdoubled]
  | true =>
    rw [hdoubles, Bool.toNat_true] at hcount
    rw [if_pos hdoubles] at hdoubled
    obtain ⟨x, hlast, rfl⟩ := hdoubled
    cases hinside : l.has .lastVowelDrop with
    | true =>
      rw [hinside, Bool.toNat_true] at hcount
      have hend : l.has .progressiveVowelDrop = false := Bool.toNat_eq_zero.mp (by omega)
      rw [if_pos hinside] at hdropped
      rw [if_neg (ne_true_of_eq_false hend)] at hfinal
      rw [hfinal, hdropped.2]
      exact Word.eraseIdx_append_getLast hlast
    | false =>
      rw [hinside, Bool.toNat_false] at hcount
      have hend : l.has .progressiveVowelDrop = true := Bool.toNat_eq_one.mp (by omega)
      rw [if_neg (ne_true_of_eq_false hinside)] at hdropped
      rw [if_pos hend] at hfinal
      rw [hfinal.2, hdropped]
      exact List.dropLast_concat

-- ════════════════════════════════════════════════════════════════════════
-- All changes
-- ════════════════════════════════════════════════════════════════════════

/-- The changes cancel exactly if no stop is voiced and as many letters are dropped as are
    doubled. -/
theorem stem_eq_lemmaRoot_iff (h : ofLexeme l = .ok a) : a.stem = l.lemmaRoot ↔
    l.isVoiced = false ∧ (l.has .doubling).toNat =
      (l.has .lastVowelDrop).toNat + (l.has .progressiveVowelDrop).toNat := by
  obtain ⟨b, c, d, hvoiced, hdoubled, hdropped, hfinal⟩ := ofLexeme_eq_ok_iff.mp h
  have hlength := length_of_dropping hdoubled hdropped hfinal
  rw [voiceStop_lemmaRoot_eq_ok_iff] at hvoiced
  split at hvoiced
  · next hasks =>
    obtain ⟨stem, hvoices, rfl⟩ := hvoiced
    simp only [hasks, Bool.true_eq_false, false_and, iff_false]
    intro hstem
    have hsame : a.stem = stem := by
      refine stem_eq_of_dropping hdoubled hdropped hfinal ?_
      rw [hstem, change, hvoices.length_eq] at hlength
      omega
    exact hvoices.ne (hsame.symm.trans hstem)
  · next hasks =>
    subst hvoiced
    simp only [hasks, true_and]
    constructor
    · intro hstem
      simp only [hstem] at hlength
      omega
    · exact stem_eq_of_dropping hdoubled hdropped hfinal

theorem contains_consonantStart_change (stem : Word) (exclusive : Bool) :
    (a.change stem exclusive).unaltered.contains .consonantStart =
      (a.unaltered.contains .consonantStart || exclusive) := by
  cases exclusive <;> simp [change]

/-- What makes the unaltered root want a consonant. -/
theorem contains_consonantStart_unaltered (h : ofLexeme l = .ok a) :
    a.unaltered.contains .consonantStart = (l.isVoiced && !l.has .voicingOpt || l.has .doubling
      || l.has .lastVowelDrop && l.pos != .verb) := by
  obtain ⟨b, c, d, hvoiced, hdoubled, hdropped, hfinal⟩ := ofLexeme_eq_ok_iff.mp h
  have hb : b.unaltered.contains .consonantStart = (l.isVoiced && !l.has .voicingOpt) := by
    rw [voiceStop_lemmaRoot_eq_ok_iff] at hvoiced
    split at hvoiced
    · next hasks =>
      obtain ⟨stem, -, rfl⟩ := hvoiced
      rw [contains_consonantStart_change, hasks]
      simp
    · next hasks => simp [hvoiced, hasks]
  have hc : c.unaltered.contains .consonantStart =
      (b.unaltered.contains .consonantStart || l.has .doubling) := by
    rw [doubleLast_eq_ok_iff] at hdoubled
    split at hdoubled
    · next hasks =>
      obtain ⟨x, -, rfl⟩ := hdoubled
      rw [contains_consonantStart_change, hasks]
    · next hasks => simp [hdoubled, hasks]
  have hd : d.unaltered.contains .consonantStart =
      (c.unaltered.contains .consonantStart || l.has .lastVowelDrop && l.pos != .verb) := by
    rw [dropLastVowel_eq_ok_iff] at hdropped
    split at hdropped
    · next hasks =>
      obtain ⟨-, rfl⟩ := hdropped
      rw [contains_consonantStart_change, hasks, Bool.true_and]
    · next hasks => simp [hdropped, hasks]
  have ha : a.unaltered.contains .consonantStart = d.unaltered.contains .consonantStart := by
    rw [dropFinal_eq_ok_iff] at hfinal
    split at hfinal
    · obtain ⟨-, rfl⟩ := hfinal
      rw [contains_consonantStart_change, Bool.or_false]
    · rw [hfinal]
  rw [ha, hd, hc, hb]

/-- The altered root never wants a consonant. -/
theorem contains_consonantStart_altered (h : ofLexeme l = .ok a) :
    a.altered.contains .consonantStart = false := by
  refine ofLexeme_induction (P := fun a => a.altered.contains .consonantStart = false) h
    (FlagSet.contains_empty _) fun a b ha hab => ?_
  cases hab with
  | unchanged => exact ha
  | changed _ _ => simp [change, ha]

/-- A stem that comes out unchanged has one root. -/
theorem exists_roots_of_stem_eq (h : a.stem = l.lemmaRoot) : ∃ r, a.roots l = [r] ∧
    r.surface = l.lemmaRoot ∧ r.expectations = a.unaltered := by
  unfold roots
  rw [if_pos h]
  exact ⟨_, rfl, rfl, rfl⟩

/-- A stem that comes out altered has two roots. -/
theorem exists_roots_of_stem_ne (h : a.stem ≠ l.lemmaRoot) : ∃ r s, a.roots l = [r, s] ∧
    (r.surface = l.lemmaRoot ∧ r.expectations = a.unaltered) ∧
    s.surface = a.stem ∧ s.expectations = a.altered := by
  unfold roots
  rw [if_neg h]
  exact ⟨_, _, rfl, ⟨rfl, rfl⟩, rfl, rfl⟩

end Alternation

-- ════════════════════════════════════════════════════════════════════════
-- A single change
-- ════════════════════════════════════════════════════════════════════════

namespace Lexeme

variable {l : Lexeme} {m : LexemeAttribute} {rs : List Root}

theorem roots_of_regular (hmodified : l.isModified = true) (hregular : l.has .rootChange = false) :
    l.roots = (Alternation.ofLexeme l).map (Alternation.roots l) := by
  rw [roots, if_pos hmodified, hregular, if_neg Bool.false_ne_true]

theorem isModified_of_has (h : l.has m = true) (hm : m ∈ LexemeAttribute.modifiers) :
    l.isModified = true :=
  List.any_eq_true.mpr ⟨m, hm, h⟩

/-- A root of a lexeme that is altered regularly is the lemma root or the altered stem. -/
theorem exists_alternation_of_mem_roots {r : Root} (h : l.roots = .ok rs) (hr : r ∈ rs)
    (hmodified : l.isModified = true) (hregular : l.has .rootChange = false) :
    ∃ a, Alternation.ofLexeme l = .ok a ∧
      (r.surface = l.lemmaRoot ∧ r.expectations = a.unaltered ∨
        r.surface = a.stem ∧ a.stem ≠ l.lemmaRoot ∧ r.expectations = a.altered) := by
  rw [roots_of_regular hmodified hregular] at h
  obtain ⟨a, ha, rfl⟩ := Except.map_eq_ok_iff.mp h
  refine ⟨a, ha, ?_⟩
  by_cases hstem : a.stem = l.lemmaRoot
  · obtain ⟨s, hs, hsurface⟩ := Alternation.exists_roots_of_stem_eq hstem
    rw [hs] at hr
    exact .inl (List.mem_singleton.mp hr ▸ hsurface)
  · obtain ⟨s, t, hst, hunaltered, hsurface, hexpects⟩ := Alternation.exists_roots_of_stem_ne hstem
    rw [hst] at hr
    rcases List.mem_cons.mp hr with rfl | hr
    · exact .inl hunaltered
    · obtain rfl := List.mem_singleton.mp hr
      exact .inr ⟨hsurface, hstem, hexpects⟩

/-- The attribute is the only one of the lexeme that asks for an altered root. -/
def HasOnly (l : Lexeme) (m : LexemeAttribute) : Prop :=
  ∀ a ∈ LexemeAttribute.modifiers, l.has a = decide (a = m)

theorem roots_of_hasOnly (h : l.HasOnly m) (hm : m ∈ LexemeAttribute.modifiers)
    (hregular : m ≠ .rootChange) :
    l.roots = (Alternation.ofLexeme l).map (Alternation.roots l) := by
  have hhas : l.has m = true := by simp [h m hm]
  refine roots_of_regular (isModified_of_has hhas hm) ?_
  simp [h .rootChange (by decide), Ne.symm hregular]

theorem HasOnly.has_eq_false (h : l.HasOnly m) {a : LexemeAttribute}
    (ha : a ∈ LexemeAttribute.modifiers) (hne : a ≠ m) : l.has a = false := by
  rw [h a ha, decide_eq_false hne]

theorem HasOnly.isVoiced_eq_false (h : l.HasOnly m) (hm : m ≠ .voicing ∧ m ≠ .voicingOpt) :
    l.isVoiced = false := by
  rw [isVoiced, h.has_eq_false (by decide) hm.1.symm, h.has_eq_false (by decide) hm.2.symm]
  rfl

theorem ofLexeme_of_hasOnly_voicing (h : l.HasOnly .voicing) :
    Alternation.ofLexeme l = Alternation.voiceStop l { stem := l.lemmaRoot } := by
  simp only [Alternation.ofLexeme, Alternation.doubleLast_of_not (h .doubling (by decide)),
    Alternation.dropLastVowel_of_not (h .lastVowelDrop (by decide)),
    Alternation.dropFinal_of_not (h .progressiveVowelDrop (by decide))]
  cases Alternation.voiceStop l { stem := l.lemmaRoot } <;> rfl

theorem ofLexeme_of_hasOnly_lastVowelDrop (h : l.HasOnly .lastVowelDrop) :
    Alternation.ofLexeme l = Alternation.dropLastVowel l { stem := l.lemmaRoot } := by
  simp only [Alternation.ofLexeme,
    Alternation.voiceStop_of_not (h.isVoiced_eq_false (by decide)),
    Alternation.doubleLast_of_not (h .doubling (by decide)),
    Alternation.dropFinal_of_not (h .progressiveVowelDrop (by decide))]
  change Alternation.dropLastVowel l { stem := l.lemmaRoot } >>= Except.ok = _
  cases Alternation.dropLastVowel l { stem := l.lemmaRoot } <;> rfl

theorem ofLexeme_of_hasOnly_progressiveVowelDrop (h : l.HasOnly .progressiveVowelDrop) :
    Alternation.ofLexeme l = Alternation.dropFinal l { stem := l.lemmaRoot } := by
  simp only [Alternation.ofLexeme,
    Alternation.voiceStop_of_not (h.isVoiced_eq_false (by decide)),
    Alternation.doubleLast_of_not (h .doubling (by decide)),
    Alternation.dropLastVowel_of_not (h .lastVowelDrop (by decide))]
  rfl

end Lexeme

end TurkishMorphology
