import TurkishMorphology.Proofs.Numeral.Reading
import Mathlib.Data.List.DropRight
/-!
# Reading digits aloud

A string of digits has a text as soon as its integer part and its decimal part are short enough
without their leading zeros. The text tells the value of the integer part, and it tells the decimal
part digit by digit: the leading zeros are read one by one, and the number after them keeps the
zeros at its end.

## Main definitions

- `Numeral.integerPart`, `Numeral.fraction?` — the digits before and after the comma
- `Numeral.IsReadable` — strings of digits with a text
- `Numeral.spoken` — the words of such a text, one after the other

## Main statements

- `Numeral.significant_eq_of_value_eq` — digits that write the same number
- `Numeral.splitOn_of_ofDigits?` — the words of a text
- `Numeral.eq_of_spoken_eq` — what these words tell
- `Numeral.digits_exact` — which digits have a text, and what the text tells
-/

namespace TurkishMorphology.Numeral

variable {w v : Word} {words : List Word} {n : Nat}

-- ════════════════════════════════════════════════════════════════════════
-- Digits
-- ════════════════════════════════════════════════════════════════════════

theorem value_append_singleton (w : Word) (c : Char) :
    value (w ++ [c]) = 10 * value w + (c.toNat - '0'.toNat) := by
  rw [value, List.foldl_append]
  rfl

theorem toNat_of_isDigit {c : Char} (h : c.isDigit = true) :
    '0'.toNat ≤ c.toNat ∧ c.toNat - '0'.toNat < 10 := by
  obtain ⟨hle, hge⟩ := Char.isDigit_iff_toNat.mp h
  have hzero : '0'.toNat = 48 := rfl
  have hnine : '9'.toNat = 57 := rfl
  omega

theorem value_lt (h : w.all Char.isDigit = true) : value w < Nat.pow 10 w.length := by
  induction w using List.reverseRecOn with
  | nil => decide
  | append_singleton w c ih =>
    rw [List.all_append, Bool.and_eq_true] at h
    have hc := toNat_of_isDigit (c := c) (by simpa using h.2)
    have hw := ih h.1
    have hpow : Nat.pow 10 (w ++ [c]).length = 10 * Nat.pow 10 w.length := by
      rw [List.length_append, Nat.mul_comm]
      rfl
    rw [value_append_singleton, hpow]
    omega

/-- Leading zeros do not count. -/
theorem value_significant (w : Word) : value (significant w) = value w := by
  induction w with
  | nil => rfl
  | cons c cs ih =>
    rw [significant, List.dropWhile_cons]
    split
    · next hc =>
      obtain rfl : c = '0' := by simpa using hc
      exact ih
    · rfl

theorem all_isDigit_significant (h : w.all Char.isDigit = true) :
    (significant w).all Char.isDigit = true :=
  List.all_eq_true.mpr fun c hc => List.all_eq_true.mp h c ((List.dropWhile_sublist _).subset hc)

theorem significant_append_singleton (w : Word) (c : Char) : significant (w ++ [c]) =
    if (significant w).isEmpty then significant [c] else significant w ++ [c] :=
  List.dropWhile_append

theorem significant_eq_nil_of_value (h : w.all Char.isDigit = true) (hvalue : value w = 0) :
    significant w = [] := by
  induction w using List.reverseRecOn with
  | nil => rfl
  | append_singleton w c ih =>
    rw [List.all_append, Bool.and_eq_true] at h
    rw [value_append_singleton] at hvalue
    have hc := toNat_of_isDigit (c := c) (by simpa using h.2)
    have hzero : c = '0' := Char.toNat_inj.mp (by omega)
    rw [significant_append_singleton, ih h.1 (by omega), hzero]
    rfl

/-- Digits that write the same number differ in their leading zeros only. -/
theorem significant_eq_of_value_eq (hv : v.all Char.isDigit = true)
    (hw : w.all Char.isDigit = true) (h : value v = value w) : significant v = significant w := by
  induction v using List.reverseRecOn generalizing w with
  | nil => exact (significant_eq_nil_of_value hw h.symm).symm
  | append_singleton v c ih =>
    rcases List.eq_nil_or_concat' w with rfl | ⟨w, d, rfl⟩
    · exact significant_eq_nil_of_value hv h
    · rw [List.all_append, Bool.and_eq_true] at hv hw
      rw [value_append_singleton, value_append_singleton] at h
      have hc := toNat_of_isDigit (c := c) (by simpa using hv.2)
      have hd := toNat_of_isDigit (c := d) (by simpa using hw.2)
      have hlast : c = d := Char.toNat_inj.mp (by omega)
      rw [significant_append_singleton, significant_append_singleton,
        ih hv.1 hw.1 (by omega), hlast]

/-- Digits are leading zeros and significant digits. -/
theorem replicate_append_significant (w : Word) :
    List.replicate (w.length - (significant w).length) '0' ++ significant w = w := by
  have hsplit := List.takeWhile_append_dropWhile (p := (· == '0')) (l := w)
  have hzeros : w.takeWhile (· == '0') =
      List.replicate (w.length - (significant w).length) '0' := by
    rw [List.eq_replicate_iff]
    constructor
    · have hlength := congrArg List.length hsplit
      rw [List.length_append] at hlength
      rw [significant]
      omega
    · intro c hc
      simpa using List.all_eq_true.mp List.all_takeWhile c hc
  rw [← hzeros]
  exact hsplit

-- ════════════════════════════════════════════════════════════════════════
-- Which digits have a text
-- ════════════════════════════════════════════════════════════════════════

/-- The digits before the comma. -/
def integerPart (w : Word) : Word := (w.splitOnce? ',').elim w Prod.fst

/-- The digits after the comma, if there is one. -/
def fraction? (w : Word) : Option Word := (w.splitOnce? ',').map Prod.snd

/-- Digits of a number with a text of its own. -/
structure IsShort (w : Word) : Prop where
  digits : isDigits w = true
  length : (significant w).length ≤ 18

/-- The strings of digits that have a text. -/
structure IsReadable (w : Word) : Prop where
  numeral : isNumeral w = true
  integer : (significant (integerPart w)).length ≤ 18
  fraction : ∀ f ∈ fraction? w, (significant f).length ≤ 18

theorem all_isDigit_of_isDigits (h : isDigits w = true) : w.all Char.isDigit = true :=
  (Bool.and_eq_true_iff.mp h).2

theorem isReadable_iff : IsReadable w ↔
    IsShort (integerPart w) ∧ ∀ f ∈ fraction? w, IsShort f := by
  have hnumeral : isNumeral w = true ↔
      isDigits (integerPart w) = true ∧ ∀ f ∈ fraction? w, isDigits f = true := by
    unfold isNumeral integerPart fraction?
    cases w.splitOnce? ',' with
    | none => simp
    | some parts => simp
  constructor
  · rintro ⟨hw, hinteger, hfraction⟩
    obtain ⟨hdigits, hdecimals⟩ := hnumeral.mp hw
    exact ⟨⟨hdigits, hinteger⟩, fun f hf => ⟨hdecimals f hf, hfraction f hf⟩⟩
  · rintro ⟨hinteger, hfraction⟩
    exact ⟨hnumeral.mpr ⟨hinteger.digits, fun f hf => (hfraction f hf).digits⟩, hinteger.length,
      fun f hf => (hfraction f hf).length⟩

theorem IsShort.value_le (h : IsShort w) : value w ≤ largest := by
  have hlt := value_lt (all_isDigit_significant (all_isDigit_of_isDigits h.digits))
  have hpow : Nat.pow 10 (significant w).length ≤ Nat.pow 10 18 :=
    Nat.pow_le_pow_right (by decide) h.length
  rw [value_significant] at hlt
  exact Nat.le_of_lt_succ (Nat.lt_of_lt_of_le hlt hpow)

theorem IsShort.exists_words (h : IsShort w) : ∃ words, words? (value w) = some words :=
  Option.isSome_iff_exists.mp (isSome_words?_iff.mpr h.value_le)

/-- A number in digits has a text if it is short enough. -/
theorem value?_bind_ofNat?_eq_some_iff {text : Word} : (value? w).bind ofNat? = some text ↔
    IsShort w ∧ ∃ words, words? (value w) = some words ∧ join words = text := by
  have hshort : (isDigits w && (significant w).length ≤ 18) = true ↔ IsShort w := by
    rw [Bool.and_eq_true, decide_eq_true_iff]
    exact ⟨fun h => ⟨h.1, h.2⟩, fun h => ⟨h.1, h.2⟩⟩
  unfold value?
  split
  · next h => simp [hshort.mp h, ofNat?, Option.map_eq_some_iff]
  · next h => simp [mt hshort.mpr h]

/-- The words of the digits after the comma, without the zeros in front. -/
def significantWords (f : Word) : List Word :=
  if significant f = [] then [] else (words? (value f)).getD []

/-- The words of the digits after the comma: each leading zero, and the words of the number that
    follows, if there is one. -/
def decimalWords (f : Word) : List Word :=
  List.replicate (f.length - (significant f).length) zero ++ significantWords f

/-- The words of a string of digits, one after the other. -/
def spoken (w : Word) : List Word :=
  (words? (value (integerPart w))).getD [] ++
    (fraction? w).elim [] fun f => comma :: decimalWords f

/-- The words of texts that are joined are the words of each text. -/
theorem splitOn_join_flatMap {texts : List Word} (h : texts ≠ []) :
    (join texts).splitOn ' ' = texts.flatMap fun text => text.splitOn ' ' := by
  induction texts with
  | nil => exact absurd rfl h
  | cons text rest ih =>
    cases rest with
    | nil => simp [join]
    | cons next rest =>
      have hjoin : join (text :: next :: rest) = text ++ ' ' :: join (next :: rest) := by
        simp [join, List.intercalate_cons_cons]
      rw [hjoin, List.flatMap_cons, ← ih (List.cons_ne_nil _ _)]
      exact List.splitOn_append_cons_self _ _

theorem isShort_significant_iff {f : Word} (hne : significant f ≠ []) (hf : isDigits f = true) :
    IsShort (significant f) ↔ IsShort f := by
  have hidem : significant (significant f) = significant f := List.dropWhile_idempotent _ _
  have hdigits : isDigits (significant f) = true :=
    Bool.and_eq_true_iff.mpr
      ⟨by simpa using hne, all_isDigit_significant (all_isDigit_of_isDigits hf)⟩
  constructor
  · rintro ⟨-, hlength⟩
    exact ⟨hf, by rwa [hidem] at hlength⟩
  · rintro ⟨-, hlength⟩
    exact ⟨hdigits, by rwa [hidem]⟩

theorem fractionWords?_eq {f : Word} (h : isDigits f = true) : fractionWords? f =
    if significant f = [] then some (List.replicate (f.length - (significant f).length) zero)
    else ((value? (significant f)).bind ofNat?).map fun text =>
      List.replicate (f.length - (significant f).length) zero ++ [text] := by
  rw [fractionWords?, if_pos h]
  simp only [List.isEmpty_iff]

theorem isShort_of_fractionWords? {f : Word} {decimals : List Word}
    (h : fractionWords? f = some decimals) : IsShort f := by
  have hf := isDigits_of_fractionWords? h
  rw [fractionWords?_eq hf] at h
  split at h
  · next hnil => exact ⟨hf, by simp [hnil]⟩
  · next hne =>
    obtain ⟨text, htext, -⟩ := Option.map_eq_some_iff.mp h
    exact (isShort_significant_iff hne hf).mp (value?_bind_ofNat?_eq_some_iff.mp htext).1

/-- Short digits have words after the comma, each zero in front and the number that follows. -/
theorem exists_fractionWords? {f : Word} (h : IsShort f) :
    ∃ decimals, fractionWords? f = some decimals ∧
      (decimals.flatMap fun text => text.splitOn ' ') = decimalWords f := by
  have hzero : zero.splitOn ' ' = [zero] := by decide
  have hzeros (k : Nat) : ((List.replicate k zero).flatMap fun text => text.splitOn ' ') =
      List.replicate k zero := by
    rw [List.flatMap_replicate, hzero, List.flatten_replicate_singleton]
  rw [fractionWords?_eq h.digits]
  by_cases hne : significant f = []
  · rw [if_pos hne]
    refine ⟨_, rfl, ?_⟩
    rw [hzeros, decimalWords, significantWords, if_pos hne, List.append_nil]
  · obtain ⟨words, hwords⟩ := h.exists_words
    have htext : (value? (significant f)).bind ofNat? = some (join words) :=
      value?_bind_ofNat?_eq_some_iff.mpr
        ⟨(isShort_significant_iff hne h.digits).mpr h, words, by rwa [value_significant], rfl⟩
    rw [if_neg hne, htext]
    refine ⟨_, rfl, ?_⟩
    rw [List.flatMap_append, hzeros, List.flatMap_singleton, splitOn_join_of_words? hwords,
      decimalWords, significantWords, if_neg hne, hwords]
    rfl

/-- Digits have a text only if they are readable. -/
theorem isReadable_of_ofDigits? {text : Word} (h : ofDigits? w = some text) : IsReadable w := by
  rw [isReadable_iff]
  unfold ofDigits? at h
  unfold integerPart fraction?
  split at h
  · next hsplit =>
    rw [hsplit]
    exact ⟨(value?_bind_ofNat?_eq_some_iff.mp h).1, by simp⟩
  · next integer fraction hsplit =>
    obtain ⟨whole, hwhole, h⟩ := Option.bind_eq_some_iff.mp h
    obtain ⟨decimals, hdecimals, -⟩ := Option.bind_eq_some_iff.mp h
    rw [hsplit]
    exact ⟨(value?_bind_ofNat?_eq_some_iff.mp hwhole).1,
      by simpa using isShort_of_fractionWords? hdecimals⟩

/-- Readable digits have a text, and its words are those of their integer part and their decimal
    part. -/
theorem exists_ofDigits? (h : IsReadable w) :
    ∃ text, ofDigits? w = some text ∧ text.splitOn ' ' = spoken w := by
  obtain ⟨hinteger, hfraction⟩ := isReadable_iff.mp h
  obtain ⟨words, hwords⟩ := hinteger.exists_words
  have hwhole : (value? (integerPart w)).bind ofNat? = some (join words) :=
    value?_bind_ofNat?_eq_some_iff.mpr ⟨hinteger, words, hwords, rfl⟩
  cases hsplit : w.splitOnce? ',' with
  | none =>
    have hpart : integerPart w = w := by rw [integerPart, hsplit]; rfl
    have hnone : fraction? w = none := by rw [fraction?, hsplit]; rfl
    refine ⟨join words, ?_, ?_⟩
    · rw [ofDigits?, hsplit, ← hpart]
      exact hwhole
    · rw [splitOn_join_of_words? hwords, spoken, hwords, hnone]
      exact (List.append_nil _).symm
  | some parts =>
    have hpart : integerPart w = parts.1 := by rw [integerPart, hsplit]; rfl
    have hsome : fraction? w = some parts.2 := by rw [fraction?, hsplit]; rfl
    obtain ⟨decimals, hdecimals, hflat⟩ := exists_fractionWords? (hfraction parts.2 hsome)
    have hcomma : comma.splitOn ' ' = [comma] := by decide
    refine ⟨join (join words :: comma :: decimals), ?_, ?_⟩
    · rw [hpart] at hwhole
      simp [ofDigits?, hsplit, hwhole, hdecimals]
    · rw [splitOn_join_flatMap (List.cons_ne_nil _ _), List.flatMap_cons, List.flatMap_cons, hflat,
        splitOn_join_of_words? hwords, hcomma, spoken, hwords, hsome]
      rfl

/-- The words of a text are those of the digits it was made from. -/
theorem splitOn_of_ofDigits? {text : Word} (h : ofDigits? w = some text) :
    text.splitOn ' ' = spoken w := by
  obtain ⟨text', htext, hwords⟩ := exists_ofDigits? (isReadable_of_ofDigits? h)
  cases h.symm.trans htext
  exact hwords

-- ════════════════════════════════════════════════════════════════════════
-- What the text tells
-- ════════════════════════════════════════════════════════════════════════

theorem comma_not_mem_of_words? (h : words? n = some words) : comma ∉ words := by
  intro hmem
  have hne := all_of_words? (p := fun w => decide (w ≠ comma)) h (by decide) hmem
  simp at hne

theorem exists_words_of_mem_significantWords {f : Word} (h : w ∈ significantWords f) :
    significant f ≠ [] ∧ ∃ words, words? (value f) = some words ∧ w ∈ words := by
  unfold significantWords at h
  split at h
  · cases h
  · next hne =>
    cases hwords : words? (value f) with
    | none =>
      rw [hwords] at h
      cases h
    | some words =>
      rw [hwords] at h
      exact ⟨hne, words, rfl, h⟩

/-- The number after the zeros is not zero itself. -/
theorem zero_not_mem_significantWords {f : Word} (h : f.all Char.isDigit = true) :
    zero ∉ significantWords f := by
  intro hmem
  obtain ⟨hne, words, hwords, hmem⟩ := exists_words_of_mem_significantWords hmem
  rcases mem_of_words? hwords with ⟨hvalue, -⟩ | ⟨-, hnumber⟩
  · exact hne (significant_eq_nil_of_value h hvalue)
  · exact absurd (hnumber zero hmem) (by decide)

theorem comma_not_mem_decimalWords (f : Word) : comma ∉ decimalWords f := by
  have hzero : comma ≠ zero := by decide
  intro hmem
  rcases List.mem_append.mp hmem with hmem | hmem
  · exact hzero (List.eq_of_mem_replicate hmem)
  · obtain ⟨-, words, hwords, hmem⟩ := exists_words_of_mem_significantWords hmem
    exact comma_not_mem_of_words? hwords hmem

theorem significant_eq_of_significantWords_eq {f g : Word} (hf : IsShort f) (hg : IsShort g)
    (h : significantWords f = significantWords g) : significant f = significant g := by
  obtain ⟨ws, hws⟩ := hf.exists_words
  obtain ⟨vs, hvs⟩ := hg.exists_words
  simp only [significantWords, hws, hvs, Option.getD_some] at h
  by_cases hnilf : significant f = []
  · by_cases hnilg : significant g = []
    · rw [hnilf, hnilg]
    · rw [if_pos hnilf, if_neg hnilg] at h
      exact absurd h.symm (words?_ne_nil hvs)
  · by_cases hnilg : significant g = []
    · rw [if_neg hnilf, if_pos hnilg] at h
      exact absurd h (words?_ne_nil hws)
    · rw [if_neg hnilf, if_neg hnilg] at h
      subst h
      exact significant_eq_of_value_eq (all_isDigit_of_isDigits hf.digits)
        (all_isDigit_of_isDigits hg.digits) (eq_of_words?_eq hws hvs)

/-- The words after the comma tell each digit. -/
theorem eq_of_decimalWords_eq {f g : Word} (hf : IsShort f) (hg : IsShort g)
    (h : decimalWords f = decimalWords g) : f = g := by
  -- The word for zero stands for the zeros in front only.
  have hzeros {f : Word} (hf : IsShort f) : (decimalWords f).filter (· == zero) =
      List.replicate (f.length - (significant f).length) zero := by
    have hrest : (significantWords f).filter (· == zero) = [] := by
      rw [List.filter_eq_nil_iff]
      rintro w hw hzero
      rw [eq_of_beq hzero] at hw
      exact zero_not_mem_significantWords (all_isDigit_of_isDigits hf.digits) hw
    rw [decimalWords, List.filter_append, hrest, List.append_nil, List.filter_replicate,
      if_pos (beq_self_eq_true zero)]
  have hcount : f.length - (significant f).length = g.length - (significant g).length := by
    have hfilter := congrArg (List.filter (· == zero)) h
    rw [hzeros hf, hzeros hg] at hfilter
    exact List.replicate_left_inj.mp hfilter
  have hrest : significantWords f = significantWords g := by
    rw [decimalWords, decimalWords, hcount] at h
    exact List.append_cancel_left h
  rw [← replicate_append_significant f, ← replicate_append_significant g, hcount,
    significant_eq_of_significantWords_eq hf hg hrest]

/-- Equal words come from the same value before the comma and the same digits after it. -/
theorem eq_of_spoken_eq (hv : IsReadable v) (hw : IsReadable w) (h : spoken v = spoken w) :
    value (integerPart v) = value (integerPart w) ∧ fraction? v = fraction? w := by
  obtain ⟨hintegerv, hfractionv⟩ := isReadable_iff.mp hv
  obtain ⟨hintegerw, hfractionw⟩ := isReadable_iff.mp hw
  obtain ⟨vs, hvs⟩ := hintegerv.exists_words
  obtain ⟨ws, hws⟩ := hintegerw.exists_words
  have hcommav := comma_not_mem_of_words? hvs
  have hcommaw := comma_not_mem_of_words? hws
  simp only [spoken, hvs, hws, Option.getD_some] at h
  cases hf : fraction? v with
  | none =>
    cases hg : fraction? w with
    | none =>
      simp only [hf, hg, Option.elim_none, List.append_nil] at h
      subst h
      exact ⟨eq_of_words?_eq hvs hws, rfl⟩
    | some g =>
      simp only [hf, hg, Option.elim_none, Option.elim_some, List.append_nil] at h
      exact absurd (by rw [h]; simp) hcommav
  | some f =>
    cases hg : fraction? w with
    | none =>
      simp only [hf, hg, Option.elim_none, Option.elim_some, List.append_nil] at h
      exact absurd (by rw [← h]; simp) hcommaw
    | some g =>
      simp only [hf, hg, Option.elim_some] at h
      obtain ⟨hwords, -, hdecimals⟩ :=
        (List.append_cons_inj_of_notMem hcommav (comma_not_mem_decimalWords f)).mp h
      subst hwords
      exact ⟨eq_of_words?_eq hvs hws,
        congrArg some (eq_of_decimalWords_eq (hfractionv f hf) (hfractionw g hg) hdecimals)⟩

/-- Strings of digits have a text if and only if they are numerals whose integer part and decimal
    part have at most 18 digits each from the first one that is not zero. Equal texts come from
    integer parts of the same value and from the same decimal digits. -/
theorem digits_exact :
    (∀ w, (∃ text, ofDigits? w = some text) ↔ IsReadable w) ∧
    ∀ v w text, ofDigits? v = some text → ofDigits? w = some text →
      value (integerPart v) = value (integerPart w) ∧ fraction? v = fraction? w := by
  refine ⟨fun w => ⟨fun ⟨text, h⟩ => isReadable_of_ofDigits? h, fun h => ?_⟩,
    fun v w text hv hw => ?_⟩
  · obtain ⟨text, htext, -⟩ := exists_ofDigits? h
    exact ⟨text, htext⟩
  · exact eq_of_spoken_eq (isReadable_of_ofDigits? hv) (isReadable_of_ofDigits? hw)
      ((splitOn_of_ofDigits? hv).symm.trans (splitOn_of_ofDigits? hw))

/-- Three point zero five and three point five, the integer part with zeros in front. -/
theorem digits_exact_decimals :
    ofDigits? "3,05".toList = ofDigits? "003,05".toList ∧
      (∃ text, ofDigits? "003,05".toList = some text) ∧
      value (integerPart "3,05".toList) = value (integerPart "003,05".toList) ∧
      fraction? "3,05".toList = fraction? "003,05".toList := by
  have htext : ofDigits? "3,05".toList = some "üç virgül sıfır beş".toList := by decide
  have hzeros : ofDigits? "003,05".toList = some "üç virgül sıfır beş".toList := by decide
  exact ⟨htext.trans hzeros.symm, ⟨_, hzeros⟩, digits_exact.2 _ _ _ htext hzeros⟩

end TurkishMorphology.Numeral
