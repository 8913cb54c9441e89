import TurkishMorphology.Lexicon.Stem
import TurkishMorphology.Proofs.Result
/-!
# What the roots of a lexeme look like

A root is spelled as the lemma root, as a listed irregular stem, or as an altered stem. The letters
of an altered stem come from the lemma root, except for the one that voicing puts in. Only altered
stems want a vowel next.

## Main definitions

- `Alphabet.voicedChars` — what voicing can put in
- `Lexeme.isVoiced` — lexemes whose final stop is voiced
- `Alternation.Alters` — what a change can make of an alternation
- `Alternation.IsOf` — an alternation on the way from the lemma root of a lexeme
- `Lexeme.Spells` — the three spellings of a root

## Main statements

- `Alternation.voiceStop_eq_ok_iff`, `doubleLast_eq_ok_iff`, `dropLastVowel_eq_ok_iff`,
  `dropFinal_eq_ok_iff` — each change
- `Alternation.ofLexeme_induction` — what the changes keep
- `exists_mem_irregularStems` — irregular stems are listed
- `Lexeme.spells_of_mem_roots` — the roots of a lexeme
- `Lexeme.mem_rootsWithPlain_iff` — the roots together with their copies
-/

namespace TurkishMorphology

namespace Alphabet

def voicedChars : List Char := ['b', 'c', 'd', 'g', 'ğ', 'B', 'C', 'D', 'Ğ']

theorem mem_voicedChars_of_voice? {c v : Char} (h : voice? c = some v) : v ∈ voicedChars := by
  have hletters : ∀ l ∈ letters, ∀ m, voicedLetter? l = some m →
      m.char ∈ voicedChars ∧ m.upper ∈ voicedChars := by
    have hall : letters.all (fun l => (voicedLetter? l).all fun m =>
        voicedChars.contains m.char && voicedChars.contains m.upper) = true := by decide
    intro l hl m hm
    have hl := List.all_eq_true.mp hall l hl
    simpa [hm] using hl
  obtain ⟨l, hl, h⟩ := Option.bind_eq_some_iff.mp h
  obtain ⟨m, hm, h⟩ := Option.bind_eq_some_iff.mp h
  cases h
  obtain ⟨hchar, hupper⟩ := hletters l (mem_of_letter? hl).1 m hm
  unfold inCaseOf
  split
  · exact hupper
  · exact hchar

/-- Voicing puts in another letter. -/
theorem ne_of_voice? {c v : Char} (h : voice? c = some v) : v ≠ c := by
  have hall : voicedChars.all (fun v => (voice? v).isNone) = true := by decide
  rintro rfl
  have hnone := List.all_eq_true.mp hall v (mem_voicedChars_of_voice? h)
  rw [h] at hnone
  cases hnone

end Alphabet

/-- Whether the final stop is voiced, always or optionally. -/
def Lexeme.isVoiced (l : Lexeme) : Bool := l.has .voicing || l.has .voicingOpt

namespace Alternation

variable {l : Lexeme} {a b d : Alternation}

/-! Each change: whether it is asked for, what it needs, and what it leaves behind. -/

theorem voiceStop_eq_ok_iff : voiceStop l a = .ok b ↔
    if l.isVoiced then ∃ x, (if ['n', 'k'].isSuffixOf l.lemmaRoot then some 'g'
        else a.stem.getLast?.bind Alphabet.voice?) = some x ∧
      b = a.change (a.stem.withLast x) (!l.has .voicingOpt)
    else b = a := by
  unfold voiceStop Lexeme.isVoiced
  split
  · generalize (if ['n', 'k'].isSuffixOf l.lemmaRoot then some 'g'
      else a.stem.getLast?.bind Alphabet.voice?) = voiced
    cases voiced <;> simp [eq_comm]
  · simp [eq_comm]

theorem doubleLast_eq_ok_iff : doubleLast l a = .ok b ↔
    if l.has .doubling then ∃ c, a.stem.getLast? = some c ∧ b = a.change (a.stem ++ [c]) true
    else b = a := by
  unfold doubleLast
  split
  · cases a.stem.getLast? <;> simp [eq_comm]
  · simp [eq_comm]

theorem dropLastVowel_eq_ok_iff : dropLastVowel l a = .ok b ↔
    if l.has .lastVowelDrop then 2 ≤ a.stem.length ∧
      b = a.change (a.stem.eraseIdx (a.stem.length - 2)) (l.pos != .verb)
    else b = a := by
  unfold dropLastVowel
  split
  · split
    · next h => simp [Nat.not_le.mpr h]
    · next h => simp [Nat.not_lt.mp h, eq_comm]
  · simp [eq_comm]

theorem dropFinal_eq_ok_iff : dropFinal l a = .ok b ↔
    if l.has .progressiveVowelDrop then a.stem ≠ [] ∧ b = a.change a.stem.dropLast false
    else b = a := by
  unfold dropFinal
  split
  · split
    · next h => simp [List.isEmpty_iff.mp h]
    · next h => simp [mt List.isEmpty_iff.mpr h, eq_comm]
  · simp [eq_comm]

/-- All changes, one after the other. -/
theorem ofLexeme_eq_ok_iff : ofLexeme l = .ok d ↔
    ∃ a b c, voiceStop l { stem := l.lemmaRoot } = .ok a ∧ doubleLast l a = .ok b ∧
      dropLastVowel l b = .ok c ∧ dropFinal l c = .ok d := by
  constructor
  · intro h
    obtain ⟨a, ha, h⟩ := Except.bind_eq_ok_iff.mp h
    obtain ⟨b, hb, h⟩ := Except.bind_eq_ok_iff.mp h
    obtain ⟨c, hc, hd⟩ := Except.bind_eq_ok_iff.mp h
    exact ⟨a, b, c, ha, hb, hc, hd⟩
  · rintro ⟨a, b, c, ha, hb, hc, hd⟩
    refine Except.bind_eq_ok_iff.mpr ⟨a, ha, Except.bind_eq_ok_iff.mpr ⟨b, hb, ?_⟩⟩
    exact Except.bind_eq_ok_iff.mpr ⟨c, hc, hd⟩

/-- What a change makes of an alternation: the same, or one with a stem whose letters were there
    before or come from voicing, and which has none if there were none. -/
inductive Alters (a : Alternation) : Alternation → Prop
  | unchanged : Alters a a
  | changed {stem : Word} {exclusive : Bool}
      (letters : ∀ c ∈ stem, c ∈ a.stem ∨ c ∈ Alphabet.voicedChars)
      (empty : a.stem = [] → stem = []) : Alters a (a.change stem exclusive)

theorem mem_withLast {w : Word} {c v : Char} (h : c ∈ w.withLast v) : c ∈ w ∨ c = v := by
  unfold Word.withLast at h
  split at h
  · cases h
  · rcases List.mem_append.mp h with h | h
    · exact .inl ((List.dropLast_sublist w).subset h)
    · exact .inr (List.mem_singleton.mp h)

theorem alters_of_voiceStop (h : voiceStop l a = .ok b) : a.Alters b := by
  rw [voiceStop_eq_ok_iff] at h
  split at h
  · obtain ⟨v, hv, rfl⟩ := h
    refine .changed (fun c hc => (mem_withLast hc).imp_right ?_) fun hnil => by
      simp [hnil, Word.withLast]
    rintro rfl
    split at hv
    · cases hv
      decide
    · obtain ⟨d, -, hd⟩ := Option.bind_eq_some_iff.mp hv
      exact Alphabet.mem_voicedChars_of_voice? hd
  · rw [h]
    exact .unchanged

theorem alters_of_doubleLast (h : doubleLast l a = .ok b) : a.Alters b := by
  rw [doubleLast_eq_ok_iff] at h
  split at h
  · obtain ⟨v, hv, rfl⟩ := h
    refine .changed (fun c hc => .inl ?_) fun hnil => by simp [hnil] at hv
    rcases List.mem_append.mp hc with hc | hc
    · exact hc
    · rw [List.mem_singleton.mp hc]
      exact List.mem_of_getLast? hv
  · rw [h]
    exact .unchanged

theorem alters_of_dropLastVowel (h : dropLastVowel l a = .ok b) : a.Alters b := by
  rw [dropLastVowel_eq_ok_iff] at h
  split at h
  · obtain ⟨-, rfl⟩ := h
    exact .changed (fun c hc => .inl (List.mem_of_mem_eraseIdx hc)) fun hnil => by simp [hnil]
  · rw [h]
    exact .unchanged

theorem alters_of_dropFinal (h : dropFinal l a = .ok b) : a.Alters b := by
  rw [dropFinal_eq_ok_iff] at h
  split at h
  · obtain ⟨-, rfl⟩ := h
    exact .changed (fun c hc => .inl ((List.dropLast_sublist a.stem).subset hc))
      fun hnil => by simp [hnil]
  · rw [h]
    exact .unchanged

/-- What holds of the lemma root and is kept by every change holds of the altered stem. -/
theorem ofLexeme_induction {P : Alternation → Prop} (h : ofLexeme l = .ok a)
    (start : P { stem := l.lemmaRoot }) (step : ∀ a b, P a → a.Alters b → P b) : P a := by
  obtain ⟨a₁, a₂, a₃, h₁, h₂, h₃, h₄⟩ := ofLexeme_eq_ok_iff.mp h
  have hvoiced : P a₁ := step _ _ start (alters_of_voiceStop h₁)
  have hdoubled : P a₂ := step _ _ hvoiced (alters_of_doubleLast h₂)
  have hdropped : P a₃ := step _ _ hdoubled (alters_of_dropLastVowel h₃)
  exact step _ _ hdropped (alters_of_dropFinal h₄)

/-- No change makes letters out of nothing. -/
theorem stem_eq_nil_of_ofLexeme (h : ofLexeme l = .ok a) (hl : l.lemmaRoot = []) : a.stem = [] := by
  refine ofLexeme_induction (P := fun a => a.stem = []) h hl fun a b ha hab => ?_
  cases hab with
  | unchanged => exact ha
  | changed _ empty => exact empty ha

/-- An alternation on the way from the lemma root of a lexeme: its letters come from the lemma
    root or from voicing, and the unaltered root does not want a vowel. -/
structure IsOf (l : Lexeme) (a : Alternation) : Prop where
  letters : ∀ c ∈ a.stem, c ∈ l.lemmaRoot ∨ c ∈ Alphabet.voicedChars
  unaltered : a.unaltered.contains .vowelStart = false

theorem IsOf.alters (h : a.IsOf l) (hab : a.Alters b) : b.IsOf l := by
  cases hab with
  | unchanged => exact h
  | @changed stem exclusive letters _ =>
    constructor
    · intro c hc
      rcases letters c hc with hc | hc
      · exact h.letters c hc
      · exact .inr hc
    · unfold change
      cases exclusive <;> simp [h.unaltered]

theorem isOf_ofLexeme (h : ofLexeme l = .ok a) : a.IsOf l :=
  ofLexeme_induction h ⟨fun _ hc => .inl hc, FlagSet.contains_empty _⟩ fun _ _ ha hab =>
    ha.alters hab

end Alternation

/-- An irregular stem is listed for its lemma root. -/
theorem exists_mem_irregularStems {lemmaRoot stem : Word} {pos : PrimaryPos}
    (h : irregularStem? lemmaRoot pos = some stem) :
    ∃ entry ∈ irregularStems, entry.1.1 = lemmaRoot ∧ entry.2 = stem := by
  have hlookup : ∀ pos?, irregularStems.lookup (lemmaRoot, pos?) = some stem →
      ∃ entry ∈ irregularStems, entry.1.1 = lemmaRoot ∧ entry.2 = stem := by
    intro pos? hstem
    obtain ⟨before, after, hstems, -⟩ := List.lookup_eq_some_iff.mp hstem
    refine ⟨((lemmaRoot, pos?), stem), ?_, rfl, rfl⟩
    rw [hstems]
    exact List.mem_append_right _ (List.mem_cons_self ..)
  rcases Option.or_eq_some_iff.mp h with h | ⟨-, h⟩
  · exact hlookup _ h
  · exact hlookup _ h

namespace Lexeme

variable {l : Lexeme} {r : Root} {rs : List Root}

/-- How a root of a lexeme is spelled. -/
inductive Spells (l : Lexeme) (r : Root) : Prop
  | unaltered (surface : r.surface = l.lemmaRoot)
      (expectations : r.expectations.contains .vowelStart = false)
  | irregular (surface : irregularStem? l.lemmaRoot l.pos = some r.surface)
      (expectations : r.expectations = ∅)
  | altered (surface : r.surface ≠ l.lemmaRoot)
      (letters : ∀ c ∈ r.surface, c ∈ l.lemmaRoot ∨ c ∈ Alphabet.voicedChars)

theorem spells_plainRoot : l.Spells (l.plainRoot l.lemmaRoot) :=
  .unaltered rfl (FlagSet.contains_empty _)

theorem spells_of_mem_irregularRoots (h : l.irregularRoots = .ok rs) (hr : r ∈ rs) :
    r.lexeme = l ∧ r.kind = .listed ∧ l.Spells r := by
  unfold irregularRoots at h
  split at h
  · cases h
  · next stem hstem =>
    cases h
    split at hr
    · obtain rfl := List.mem_singleton.mp hr
      exact ⟨rfl, rfl, spells_plainRoot⟩
    · rcases List.mem_cons.mp hr with rfl | hr
      · exact ⟨rfl, rfl, spells_plainRoot⟩
      · obtain rfl := List.mem_singleton.mp hr
        exact ⟨rfl, rfl, .irregular hstem rfl⟩

theorem spells_of_mem_alternationRoots {a : Alternation} (h : a.IsOf l) (hr : r ∈ a.roots l) :
    r.lexeme = l ∧ r.kind = .listed ∧ l.Spells r := by
  unfold Alternation.roots at hr
  simp only at hr
  split at hr
  · obtain rfl := List.mem_singleton.mp hr
    exact ⟨rfl, rfl, .unaltered rfl h.unaltered⟩
  · next hne =>
    rcases List.mem_cons.mp hr with rfl | hr
    · exact ⟨rfl, rfl, .unaltered rfl h.unaltered⟩
    · obtain rfl := List.mem_singleton.mp hr
      exact ⟨rfl, rfl, .altered hne h.letters⟩

/-- The roots of a lexeme are listed for it under one of the three spellings. -/
theorem spells_of_mem_roots (h : l.roots = .ok rs) (hr : r ∈ rs) :
    r.lexeme = l ∧ r.kind = .listed ∧ l.Spells r := by
  unfold roots at h
  split at h
  · split at h
    · exact spells_of_mem_irregularRoots h hr
    · obtain ⟨a, ha, rfl⟩ := Except.map_eq_ok_iff.mp h
      exact spells_of_mem_alternationRoots (Alternation.isOf_ofLexeme ha) hr
  · cases h
    obtain rfl := List.mem_singleton.mp hr
    exact ⟨rfl, rfl, spells_plainRoot⟩

theorem mem_withPlainCopy_iff {s : Root} :
    r ∈ withPlainCopy s ↔ r = s ∨
      s.surface.any Alphabet.hasCircumflex = true ∧
        r = s.withSurface s.surface.withoutCircumflex := by
  unfold withPlainCopy
  split
  · next h => simp [h]
  · next h => simp [h]

theorem mem_rootsWithPlain_iff (h : l.rootsWithPlain = .ok rs) :
    r ∈ rs ↔ ∃ roots, l.roots = .ok roots ∧ ∃ s ∈ roots, r ∈ withPlainCopy s := by
  obtain ⟨roots, hroots, rfl⟩ := Except.map_eq_ok_iff.mp h
  simp [hroots, List.mem_flatMap]

end Lexeme

end TurkishMorphology
