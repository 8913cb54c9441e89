import TurkishMorphology.Proofs.Lexicon.RootSource
import TurkishMorphology.Proofs.Numeral
import TurkishMorphology.Proofs.Phonetics.Contexts
/-!
# Every root has a context

The attributes of a root are those of some word: of its own spelling, of the lemma root if an
altered stem has no vowel, of the spelling with circumflexes, or of the words of a number. So
whatever source a root of letters comes from, the attributes it starts with are a context.

## Main definitions

- `Root.HasContext` — a root with letters whose attributes are a context

## Main statements

- `RootIndex.hasContext_of_mem_get` — the roots of a dictionary
- `SourceOptions.hasContext_of_mem_roots` — the roots of all sources
-/

namespace TurkishMorphology

/-- A root that is not empty and starts with the attributes of some word. -/
structure Root.HasContext (r : Root) : Prop where
  surface : r.surface ≠ []
  attributes : r.attributes ∈ Phonetics.contexts

namespace Alternation

variable {l : Lexeme} {a : Alternation}

theorem attributes_mem_contexts_of_mem_roots {r : Root} (h : ofLexeme l = .ok a)
    (hr : r ∈ a.roots l) (hne : r.surface ≠ []) : r.attributes ∈ Phonetics.contexts := by
  simp only [roots] at hr
  split at hr
  · obtain rfl := List.mem_singleton.mp hr
    exact Phonetics.ofSurface_mem_contexts hne _
  · rcases List.mem_cons.mp hr with rfl | hr
    · exact Phonetics.ofSurface_mem_contexts hne _
    · obtain rfl := List.mem_singleton.mp hr
      have hlemma : l.lemmaRoot ≠ [] := fun hnil => hne (stem_eq_nil_of_ofLexeme h hnil)
      simp only [Root.listed]
      split
      · exact Phonetics.ofSurface_mem_contexts hne _
      · exact Phonetics.ofSurface_mem_contexts hlemma _

end Alternation

namespace Lexeme

variable {l : Lexeme} {r s : Root} {rs : List Root}

theorem attributes_mem_contexts_of_mem_irregularRoots (h : l.irregularRoots = .ok rs) (hr : r ∈ rs)
    (hne : r.surface ≠ []) : r.attributes ∈ Phonetics.contexts := by
  have hplain : ∃ surface, r = l.plainRoot surface := by
    unfold irregularRoots at h
    split at h
    · cases h
    · cases h
      split at hr
      · exact ⟨_, List.mem_singleton.mp hr⟩
      · rcases List.mem_cons.mp hr with hr | hr
        · exact ⟨_, hr⟩
        · exact ⟨_, List.mem_singleton.mp hr⟩
  obtain ⟨surface, rfl⟩ := hplain
  exact Phonetics.ofSurface_mem_contexts hne _

theorem attributes_mem_contexts_of_mem_roots (h : l.roots = .ok rs) (hr : r ∈ rs)
    (hne : r.surface ≠ []) : r.attributes ∈ Phonetics.contexts := by
  unfold roots at h
  split at h
  · split at h
    · exact attributes_mem_contexts_of_mem_irregularRoots h hr hne
    · obtain ⟨a, ha, rfl⟩ := Except.map_eq_ok_iff.mp h
      exact Alternation.attributes_mem_contexts_of_mem_roots ha hr hne
  · cases h
    obtain rfl := List.mem_singleton.mp hr
    exact Phonetics.ofSurface_mem_contexts hne _

/-- A copy has letters if the root has any. -/
theorem surface_eq_nil_iff_of_mem_withPlainCopy (h : r ∈ withPlainCopy s) :
    r.surface = [] ↔ s.surface = [] := by
  rcases mem_withPlainCopy_iff.mp h with rfl | ⟨-, rfl⟩
  · exact Iff.rfl
  · exact List.map_eq_nil_iff

/-- A copy keeps the attributes of the root. -/
theorem attributes_eq_of_mem_withPlainCopy (h : r ∈ withPlainCopy s) :
    r.attributes = s.attributes := by
  rcases mem_withPlainCopy_iff.mp h with rfl | ⟨-, rfl⟩ <;> rfl

end Lexeme

theorem RootIndex.hasContext_of_mem_get {options : LexiconOptions} {ls : List Lexeme}
    {index : RootIndex} {r : Root} {s : Word} (h : ofLexemes options ls = .ok index)
    (hr : r ∈ index.get s) (hs : s ≠ []) : r.HasContext := by
  obtain ⟨rfl, -, roots, hroots, t, ht, hcopy⟩ := exists_origin h hr
  have ht' : t.surface ≠ [] := mt (Lexeme.surface_eq_nil_iff_of_mem_withPlainCopy hcopy).mpr hs
  refine ⟨hs, ?_⟩
  rw [Lexeme.attributes_eq_of_mem_withPlainCopy hcopy]
  exact Lexeme.attributes_mem_contexts_of_mem_roots hroots ht ht'

/-- The attributes of a number are those of the words it is read as. -/
theorem RootSource.hasContext_of_mem_numeralRoots {digits : Word} {r : Root}
    (hdigits : digits ≠ []) (hr : r ∈ numeralRoots digits) : r.HasContext := by
  unfold numeralRoots at hr
  split at hr
  · cases hr
  · next text htext =>
    obtain rfl := List.mem_singleton.mp hr
    have hne : text ≠ [] :=
      Word.ne_nil_of_hasAlphanumeric
        (Word.hasAlphanumeric_of_hasVowel (Numeral.hasVowel_of_ofDigits? htext))
    exact ⟨hdigits, Phonetics.ofSurface_mem_contexts hne _⟩

namespace SourceOptions

open RootSource

variable {options : SourceOptions} {index : RootIndex} {beginning whole : Word} {r : Root}

theorem hasContext_of_mem_besides {link : Link} (h : link ∈ options.besides)
    (hne : beginning ≠ []) (hr : r ∈ link.source.roots beginning whole) : r.HasContext := by
  rcases mem_besides h with rfl | rfl | rfl | rfl
  · exact hasContext_of_mem_numeralRoots hne hr
  all_goals
    obtain rfl := List.mem_singleton.mp hr
    exact ⟨hne, Phonetics.ofSurface_mem_contexts hne _⟩

/-- Whatever is found under a beginning of a word has a context. -/
theorem hasContext_of_mem_roots {lexicon : LexiconOptions} {ls : List Lexeme}
    (h : RootIndex.ofLexemes lexicon ls = .ok index) (hne : beginning ≠ [])
    (hr : r ∈ (options.chain index).roots beginning whole) : r.HasContext := by
  rcases besides_or_mem_get hr with ⟨link, hlink, -, hr⟩ | hr
  · exact hasContext_of_mem_besides hlink hne hr
  · exact RootIndex.hasContext_of_mem_get h hr hne

end SourceOptions

end TurkishMorphology
