import TurkishMorphology.Proofs.Lexicon.Metadata
import TurkishMorphology.Proofs.Lexicon.RootIndex
import Mathlib.Data.List.Flatten
/-!
# Larger lexicons

What an index finds comes in blocks, one for each lexeme, and the blocks come in the order in which
the lexemes are first mentioned. So an index with more lexemes finds more, in the same order as long
as the lexemes are first mentioned in the same order. With copies free of circumflexes it finds more
in the same order, as the copies stand in the block of their lexeme. And adding lines to a
dictionary adds lexemes.

## Main definitions

- `RootIndex.block` — what an index finds for one of its lexemes

## Main statements

- `RootIndex.get_ofLexemes` — what an index finds, lexeme by lexeme
- `RootIndex.get_sublist_of_circumflexFree` — the same lexemes, with copies
- `RootIndex.get_sublist_of_eraseDups`, `RootIndex.get_subset` — more lexemes
- `Entry.readLines_sublist` — more lines
-/

namespace TurkishMorphology

/-- The roots of a lexeme are spelled differently. -/
theorem Lexeme.nodup_surfaces {l : Lexeme} {rs : List Root} (h : l.roots = .ok rs) :
    (rs.map Root.surface).Nodup := by
  unfold roots at h
  split at h
  · split at h
    · unfold irregularRoots at h
      split at h
      · cases h
      · next stem _ =>
        cases h
        by_cases hstem : stem = l.lemmaRoot
        · simp [hstem]
        · simp [hstem, plainRoot, Root.listed, Ne.symm hstem]
    · obtain ⟨a, -, rfl⟩ := Except.map_eq_ok_iff.mp h
      unfold Alternation.roots
      by_cases hstem : a.stem = l.lemmaRoot
      · simp [hstem]
      · simp [hstem, Root.listed, Ne.symm hstem]
  · cases h
    exact List.nodup_singleton _

namespace RootIndex

variable {options : LexiconOptions} {l : Lexeme} {ls ls' : List Lexeme} {index index' : RootIndex}
  {r : Root} {s : Word}

theorem lookup_append (xs ys : List Root) (s : Word) :
    lookup (xs ++ ys) s = lookup xs s ++ lookup (ys.removeAll xs) s := by
  have hnew : (ys.filter fun r => r.surface = s).removeAll (xs.filter fun r => r.surface = s) =
      (ys.removeAll xs).filter fun r => r.surface = s := by
    rw [List.removeAll, List.removeAll, List.filter_filter, List.filter_filter]
    refine List.filter_congr fun r _ => ?_
    by_cases hr : r.surface = s <;> simp [hr]
  rw [lookup, List.filter_append, List.eraseDups_append, hnew, lookup, lookup]

/-- What is found for a lexeme. -/
def block (options : LexiconOptions) (s : Word) (l : Lexeme) : List Root :=
  lookup ((rootsOf options l).toOption.getD []) s

/-- Roots that are those of lexemes are found lexeme by lexeme. -/
theorem lookup_flatMap {f : Lexeme → List Root} (hf : ∀ l, ∀ r ∈ f l, r.lexeme = l)
    (ls : List Lexeme) (s : Word) :
    lookup (ls.flatMap f) s = ls.eraseDups.flatMap fun l => lookup (f l) s := by
  induction ls using List.reverseRecOn with
  | nil => rfl
  | append_singleton ls l ih =>
    have hmem : ∀ r ∈ f l, r ∈ ls.flatMap f ↔ l ∈ ls := by
      intro r hr
      rw [List.mem_flatMap]
      constructor
      · rintro ⟨l', hl', hr'⟩
        rwa [← hf l r hr, hf l' r hr']
      · exact fun hl => ⟨l, hl, hr⟩
    rw [List.flatMap_append, List.flatMap_singleton, lookup_append, ih, List.eraseDups_concat]
    by_cases hl : l ∈ ls
    · have hnone : (f l).removeAll (ls.flatMap f) = [] := by
        simpa [List.removeAll, List.filter_eq_nil_iff] using fun r hr => (hmem r hr).mpr hl
      rw [if_pos hl, hnone]
      exact List.append_nil _
    · have hall : (f l).removeAll (ls.flatMap f) = f l := by
        refine List.filter_eq_self.mpr fun r hr => ?_
        simpa using (hmem r hr).not.mpr hl
      rw [if_neg hl, hall, List.flatMap_append, List.flatMap_singleton]

/-- What an index finds is what is found for each of its lexemes. -/
theorem get_ofLexemes (h : ofLexemes options ls = .ok index) (s : Word) :
    index.get s = ls.eraseDups.flatMap (block options s) := by
  obtain ⟨rss, hrss, rfl⟩ := ofLexemes_eq_ok_iff.mp h
  rw [get_ofRoots, Except.flatten_of_mapM hrss]
  refine lookup_flatMap (fun l r hr => ?_) ls s
  cases hroots : rootsOf options l with
  | error e =>
    rw [hroots] at hr
    cases hr
  | ok rs =>
    rw [hroots] at hr
    exact lexeme_of_mem_rootsOf hroots hr

/-- A lexeme has at most one root with a given spelling, and copies are added to it. -/
theorem block_sublist_of_circumflexFree (s : Word) (l : Lexeme) :
    (block { circumflexFree := false } s l).Sublist (block { circumflexFree := true } s l) := by
  change (lookup (l.roots.toOption.getD []) s).Sublist
    (lookup (l.rootsWithPlain.toOption.getD []) s)
  cases hroots : l.roots with
  | error e => exact List.nil_sublist _
  | ok rs =>
    rw [Lexeme.rootsWithPlain, hroots]
    change (lookup rs s).Sublist (lookup (rs.flatMap Lexeme.withPlainCopy) s)
    have hnodup := nodup_lookup rs s
    cases hfound : lookup rs s with
    | nil => exact List.nil_sublist _
    | cons r rest =>
      have hmem : ∀ t ∈ r :: rest, t ∈ rs ∧ t.surface = s := fun t ht =>
        mem_lookup_iff.mp (hfound ▸ ht)
      obtain ⟨hr, hsurface⟩ := hmem r (List.mem_cons_self ..)
      have hrest : rest = [] := by
        rw [hfound, List.nodup_cons] at hnodup
        refine List.eq_nil_iff_forall_not_mem.mpr fun t ht => hnodup.1 ?_
        obtain ⟨htmem, htsurface⟩ := hmem t (List.mem_cons_of_mem _ ht)
        rwa [List.inj_on_of_nodup_map (Lexeme.nodup_surfaces hroots) hr htmem
          (hsurface.trans htsurface.symm)]
      rw [hrest, List.singleton_sublist, mem_lookup_iff, List.mem_flatMap]
      exact ⟨⟨r, hr, Lexeme.mem_withPlainCopy_iff.mpr (.inl rfl)⟩, hsurface⟩

/-- With copies free of circumflexes an index of the same lexemes finds more, in the same order. -/
theorem get_sublist_of_circumflexFree
    (h : ofLexemes { circumflexFree := false } ls = .ok index)
    (h' : ofLexemes { circumflexFree := true } ls = .ok index') (s : Word) :
    (index.get s).Sublist (index'.get s) := by
  rw [get_ofLexemes h, get_ofLexemes h']
  exact List.Sublist.flatMap_right _ fun l _ => block_sublist_of_circumflexFree s l

/-- With more lexemes, in the order in which they are first mentioned, an index finds more, in the
    same order. -/
theorem get_sublist_of_eraseDups (h : ofLexemes options ls = .ok index)
    (h' : ofLexemes options ls' = .ok index') (hls : ls.eraseDups.Sublist ls'.eraseDups)
    (s : Word) : (index.get s).Sublist (index'.get s) := by
  rw [get_ofLexemes h, get_ofLexemes h']
  exact hls.flatMap _

theorem get_subset (h : ofLexemes options ls = .ok index)
    (h' : ofLexemes options ls' = .ok index') (hls : ls ⊆ ls') (s : Word) :
    index.get s ⊆ index'.get s := by
  intro r hr
  obtain ⟨hs, l, hl, hroots⟩ := (mem_get_ofLexemes_iff h).mp hr
  exact (mem_get_ofLexemes_iff h').mpr ⟨hs, l, hls hl, hroots⟩

end RootIndex

/-! The number of a line is for error messages only. -/

namespace Metadata

variable {m m' : Metadata} {i : Nat} (j : Nat)

theorem addPartsOfSpeech_of_ok {value : Word} (h : addPartsOfSpeech i m value = .ok m') :
    addPartsOfSpeech j m value = .ok m' :=
  addPartsOfSpeech_eq_ok_iff.mpr (addPartsOfSpeech_eq_ok_iff.mp h)

theorem addAttribute_of_ok {tag : Word} (h : addAttribute i m tag = .ok m') :
    addAttribute j m tag = .ok m' :=
  addAttribute_eq_ok_iff.mpr (addAttribute_eq_ok_iff.mp h)

theorem addItem_of_ok {item : Word} (h : addItem i m item = .ok m') :
    addItem j m item = .ok m' := by
  obtain ⟨value, ⟨hkeyed, h⟩ | ⟨hkeyed, h⟩ | h⟩ := addItem_eq_ok_iff.mp h
  · exact addItem_eq_ok_iff.mpr ⟨value, .inl ⟨hkeyed, addPartsOfSpeech_of_ok j h⟩⟩
  · have hadded := Except.foldlM_of_imp (fun _ _ _ => addAttribute_of_ok j) h
    exact addItem_eq_ok_iff.mpr ⟨value, .inr (.inl ⟨hkeyed, hadded⟩)⟩
  · exact addItem_eq_ok_iff.mpr ⟨value, .inr (.inr h)⟩

theorem read_of_ok {text : Word} (h : read i text = .ok m) : read j text = .ok m :=
  Except.foldlM_of_imp (fun _ _ _ => addItem_of_ok j) h

end Metadata

namespace Entry

theorem split_of_ok {text : Word} {parts : Word × Word} {i : Nat} (j : Nat)
    (h : split i text = .ok parts) : split j text = .ok parts := by
  unfold split at h ⊢
  split at h
  · exact h
  · split at h
    · next hinner => simpa [hinner] using h
    · cases h

theorem read_of_ok {text : Word} {entry : Option Lexeme} {i : Nat} (j : Nat)
    (h : read text i = .ok entry) : read text j = .ok entry := by
  unfold read at h ⊢
  dsimp only at h ⊢
  split at h
  · next hskip =>
    rw [if_pos hskip]
    exact h
  · next hskip =>
    rw [if_neg hskip]
    obtain ⟨⟨root, inner⟩, hparts, h⟩ := Except.bind_eq_ok_iff.mp h
    refine Except.bind_eq_ok_iff.mpr ⟨_, split_of_ok j hparts, ?_⟩
    dsimp only at h ⊢
    split at h
    · cases h
    · next hroot =>
      rw [if_neg hroot]
      obtain ⟨m, hm, h⟩ := Except.bind_eq_ok_iff.mp h
      exact Except.bind_eq_ok_iff.mpr ⟨m, Metadata.read_of_ok j hm, h⟩

/-- More lines hold more lexemes, in the same order. -/
theorem readLines_sublist {lines lines' : List Word} (hlines : lines.Sublist lines') {i j : Nat}
    {ls ls' : List Lexeme} (h : readLines i lines = .ok ls) (h' : readLines j lines' = .ok ls') :
    ls.Sublist ls' := by
  induction hlines generalizing i j ls ls' with
  | slnil =>
    cases h
    exact List.nil_sublist _
  | cons line _ ih =>
    obtain ⟨entry, -, h'⟩ := Except.bind_eq_ok_iff.mp h'
    obtain ⟨others, hothers, h'⟩ := Except.bind_eq_ok_iff.mp h'
    cases h'
    exact (ih h hothers).trans (List.sublist_append_right ..)
  | cons_cons line _ ih =>
    obtain ⟨entry, hentry, h⟩ := Except.bind_eq_ok_iff.mp h
    obtain ⟨others, hothers, h⟩ := Except.bind_eq_ok_iff.mp h
    obtain ⟨entry', hentry', h'⟩ := Except.bind_eq_ok_iff.mp h'
    obtain ⟨others', hothers', h'⟩ := Except.bind_eq_ok_iff.mp h'
    cases h
    cases h'
    rw [read_of_ok j hentry, Except.ok.injEq] at hentry'
    rw [hentry']
    exact (ih hothers hothers').append_left _

end Entry

end TurkishMorphology
