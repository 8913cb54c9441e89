import TurkishMorphology.Proofs.Phonetics.Contexts
import Mathlib.Data.Nat.Init
/-!
# Contexts and words

The demands that attributes make on their set are met by the attributes of words and by no other
set of attributes of the end of a word. Inverting harmony leads from a context to a context and
back. Texts act on contexts as they act on words: one after the other as both at once.

## Main definitions

- `Phonetics.selection` — the binary number that selects given attributes

## Main statements

- `Phonetics.ofList_mem_contexts_iff` — every valid set of trailing attributes is a context
- `Phonetics.contexts_exact` — the contexts are the attributes of words
- `Phonetics.after_append` — appending texts to words and to contexts
-/

namespace TurkishMorphology.Phonetics

variable {context : PhoneticAttributes} {v w : Word}

/-- The number that selects the attributes of a list. -/
def selection (as : List PhoneticAttribute) : Nat :=
  Nat.ofBits fun i : Fin trailing.length => decide (trailing[i] ∈ as)

/-- Every set of trailing attributes is selected by a number. -/
theorem trailingSet_selection {as : List PhoneticAttribute} (has : ∀ a ∈ as, a ∈ trailing) :
    trailingSet (selection as) = .ofList as := by
  refine FlagSet.ofList_congr fun a => ?_
  rw [List.mem_map]
  constructor
  · rintro ⟨⟨b, i⟩, hb, rfl⟩
    obtain ⟨hpos, hbit⟩ := List.mem_filter.mp hb
    have hget : trailing[i]? = some b := List.mem_zipIdx_iff_getElem?.mp hpos
    obtain ⟨hi, rfl⟩ := List.getElem?_eq_some_iff.mp hget
    change (selection as).testBit i = true at hbit
    rw [selection, Nat.testBit_ofBits_lt _ _ hi] at hbit
    exact of_decide_eq_true hbit
  · intro ha
    obtain ⟨i, hi, rfl⟩ := List.getElem_of_mem (has a ha)
    refine ⟨(trailing[i], i), List.mem_filter.mpr ⟨?_, ?_⟩, rfl⟩
    · exact List.mem_zipIdx_iff_getElem?.mpr (List.getElem?_eq_getElem hi)
    · show (selection as).testBit i = true
      rw [selection, Nat.testBit_ofBits_lt _ _ hi]
      exact decide_eq_true ha

/-- The contexts are all valid sets of trailing attributes. -/
theorem ofList_mem_contexts_iff {as : List PhoneticAttribute} (has : ∀ a ∈ as, a ∈ trailing) :
    .ofList as ∈ contexts ↔ isValid (.ofList as) = true := by
  rw [contexts, List.mem_filter, and_iff_right_iff_imp]
  intro _
  refine List.mem_map.mpr ⟨selection as, List.mem_range.mpr ?_, trailingSet_selection has⟩
  exact Nat.ofBits_lt_two_pow _

/-- The contexts are the attributes of words. -/
theorem mem_contexts_iff : context ∈ contexts ↔ ∃ w : Word, w ≠ [] ∧ ofWord w = context := by
  constructor
  · exact exists_ofWord_eq
  · rintro ⟨w, hw, rfl⟩
    exact ofWord_mem_contexts hw

theorem invert_mem_contexts (h : context ∈ contexts) : invert context ∈ contexts := by
  obtain ⟨w, hw, rfl⟩ := exists_ofWord_eq h
  have hsurface : ofSurface w (.ofList [.inverseHarmony]) = invert (ofWord w) := if_pos (by decide)
  rw [← hsurface]
  exact ofSurface_mem_contexts hw _

theorem contains_invert_of_ne (s : PhoneticAttributes) {a : PhoneticAttribute}
    (hback : a ≠ .lastVowelBack) (hfrontal : a ≠ .lastVowelFrontal) :
    (invert s).contains a = s.contains a := by
  unfold invert
  split
  · simp [hback, hfrontal]
  · split <;> simp [hback, hfrontal]

/-- In a context the vowel is not both front and back, so that inverting twice undoes itself. -/
theorem invert_invert (h : context ∈ contexts) :
    invert (invert context) = context ∧
      (context.contains .lastVowelBack && context.contains .lastVowelFrontal) = false := by
  have hall : ∀ s ∈ contexts, invert (invert s) = s ∧
      (s.contains .lastVowelBack && s.contains .lastVowelFrontal) = false := by decide +kernel
  exact hall context h

/-- Inverting exchanges front and back. -/
theorem contains_invert (h : context ∈ contexts) :
    (invert context).contains .lastVowelBack = context.contains .lastVowelFrontal ∧
      (invert context).contains .lastVowelFrontal = context.contains .lastVowelBack := by
  have hnot := (invert_invert h).2
  unfold invert
  by_cases hback : context.contains .lastVowelBack = true
  · rw [hback, Bool.true_and] at hnot
    simp [hback, hnot]
  · by_cases hfrontal : context.contains .lastVowelFrontal = true
    · simp [hback, hfrontal]
    · simp [hback, hfrontal]

/-- The contexts are the attributes of words, and the demands of the attributes describe these
    exactly, among all sets of attributes of the end of a word. A word whose lexeme inverts harmony
    has a context too: inverting exchanges front and back, changes nothing else, and undoes
    itself. -/
theorem contexts_exact :
    (∀ context, context ∈ contexts ↔ ∃ w : Word, w ≠ [] ∧ ofWord w = context) ∧
    (∀ as : List PhoneticAttribute, (∀ a ∈ as, a ∈ trailing) →
      (isValid (.ofList as) = true ↔ ∃ w : Word, w ≠ [] ∧ ofWord w = .ofList as)) ∧
    (∀ w : Word, w ≠ [] → ∀ lexeme, ofSurface w lexeme ∈ contexts) ∧
    ∀ context ∈ contexts, invert context ∈ contexts ∧ invert (invert context) = context ∧
      (invert context).contains .lastVowelBack = context.contains .lastVowelFrontal ∧
      (invert context).contains .lastVowelFrontal = context.contains .lastVowelBack ∧
      ∀ a, a ≠ .lastVowelBack → a ≠ .lastVowelFrontal →
        (invert context).contains a = context.contains a := by
  refine ⟨fun _ => mem_contexts_iff, fun as has => ?_, fun w hw => ofSurface_mem_contexts hw,
    fun context hcontext => ?_⟩
  · rw [← ofList_mem_contexts_iff has, mem_contexts_iff]
  · obtain ⟨hback, hfrontal⟩ := contains_invert hcontext
    exact ⟨invert_mem_contexts hcontext, (invert_invert hcontext).1, hback, hfrontal,
      fun a => contains_invert_of_ne context⟩

/-- The stop of `saat` follows a back vowel, which inverse harmony takes for a front one. -/
theorem contexts_exact_saat :
    "saat".toList ≠ [] ∧ ofWord "saat".toList ∈ contexts ∧
      isValid (.ofList [.lastVowelUnrounded, .lastVowelBack, .lastLetterConsonant,
        .lastLetterVoiceless, .lastLetterVoicelessStop]) = true ∧
      (ofSurface "saat".toList (.ofList [.inverseHarmony])).contains .lastVowelFrontal = true ∧
      ofSurface "saat".toList (.ofList [.inverseHarmony]) ∈ contexts ∧
      invert (ofSurface "saat".toList (.ofList [.inverseHarmony])) = ofWord "saat".toList := by
  have hne : "saat".toList ≠ [] := by decide
  obtain ⟨hmem, hvalid, hsurface, hinvert⟩ := contexts_exact
  have hword : ofWord "saat".toList ∈ contexts := (hmem _).mpr ⟨_, hne, rfl⟩
  have hinverse : ofSurface "saat".toList (.ofList [.inverseHarmony]) =
      invert (ofWord "saat".toList) := if_pos (by decide)
  obtain ⟨-, htwice, -, hfrontal, -⟩ := hinvert _ hword
  refine ⟨hne, hword, (hvalid _ (by decide)).mpr ⟨_, hne, by decide⟩, ?_, hsurface _ hne _, ?_⟩
  · rw [hinverse, hfrontal]
    decide
  · rw [hinverse, htwice]

theorem ofWord_append_of_hasAlphanumeric_eq_false {u : Word} (hv : v.hasAlphanumeric = false)
    (hw : w ≠ []) : ofWord (u ++ (v ++ w)) = ofWord (u ++ w) := by
  have hvowel : v.lastVowel? = none := by
    rw [Word.lastVowel?_eq_none_iff, ← Bool.not_eq_true]
    intro h
    rw [Word.hasAlphanumeric_of_hasVowel h] at hv
    cases hv
  rw [← List.append_assoc]
  refine ofWord_append_congr hw (.inl ?_)
  rw [Word.lastVowel?_append, hvowel, Option.none_or]

/-- Texts act on contexts one after the other as they do at once. -/
theorem after_after (h : context ∈ contexts) (v : Word) (hw : w.hasAlphanumeric = true) :
    after (after context v) w = after context (v ++ w) := by
  obtain ⟨u, hu, rfl⟩ := exists_ofWord_eq h
  have hvw : (v ++ w).hasAlphanumeric = true := by
    rw [Word.hasAlphanumeric_append, hw, Bool.or_true]
  rw [after_ofWord hu hvw]
  by_cases hv : v.hasAlphanumeric = true
  · have hne : u ++ v ≠ [] := List.append_ne_nil_of_left_ne_nil hu v
    rw [after_ofWord hu hv, after_ofWord hne hw, List.append_assoc]
  · have hv : v.hasAlphanumeric = false := by simpa using hv
    rw [after_eq_of_hasAlphanumeric_eq_false hv, after_ofWord hu hw,
      ofWord_append_of_hasAlphanumeric_eq_false hv (Word.ne_nil_of_hasAlphanumeric hw)]

/-- The attributes after a text with a letter or a digit is appended to a word are those of the
    longer word. Appending two such texts to a context is appending them joined. -/
theorem after_append :
    (∀ w : Word, w ≠ [] → ∀ text : Word, text.hasAlphanumeric = true →
      after (ofWord w) text = ofWord (w ++ text)) ∧
    ∀ context ∈ contexts, ∀ v w : Word, w.hasAlphanumeric = true →
      after (after context v) w = after context (v ++ w) :=
  ⟨fun _ hw _ => after_ofWord hw, fun _ h v _ => after_after h v⟩

/-- From `kapı` to `kapım` and on to `kapımdan`: the first suffix has no vowel. -/
theorem after_append_kapi :
    "kapı".toList ≠ [] ∧ Word.hasAlphanumeric "m".toList = true ∧
      after (ofWord "kapı".toList) "m".toList = ofWord "kapım".toList ∧
      ofWord "kapı".toList ∈ contexts ∧ Word.hasAlphanumeric "dan".toList = true ∧
      after (after (ofWord "kapı".toList) "m".toList) "dan".toList =
        after (ofWord "kapı".toList) "mdan".toList := by
  have hne : "kapı".toList ≠ [] := by decide
  have hm : Word.hasAlphanumeric "m".toList = true := by decide
  have hdan : Word.hasAlphanumeric "dan".toList = true := by decide
  obtain ⟨hword, hcontext⟩ := after_append
  have hmem : ofWord "kapı".toList ∈ contexts := ofWord_mem_contexts hne
  exact ⟨hne, hm, hword _ hne _ hm, hmem, hdan, hcontext _ hmem _ _ hdan⟩

end TurkishMorphology.Phonetics
