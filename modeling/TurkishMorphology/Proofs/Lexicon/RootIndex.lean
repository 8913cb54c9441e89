import TurkishMorphology.Lexicon.RootSource
import TurkishMorphology.Proofs.Lexicon.Stem
import Mathlib.Data.List.Induction
import Mathlib.Data.List.Nodup
import Mathlib.Data.List.Perm.Basic
/-!
# What an index of roots holds

An index holds the roots it was made of, each under its own spelling and once. So looking up a
spelling is the same as going through the list of roots, and the order of the list is kept. The
index counts its roots as they are added, and has room for a spelling once a root has it.

## Main statements

- `RootIndex.get_ofRoots` — looking up a spelling
- `RootIndex.contains_insert`, `RootIndex.size_insert` — what adding a root changes
- `RootIndex.toList_ofRoots_perm` — all roots
- `RootIndex.ofRoots_exact` — what was added is found, nothing else is, and nothing counts twice
- `RootIndex.mem_get_ofRoots_iff`, `RootIndex.nodup_get_ofLexemes` — which roots are found, each of
  them once
- `RootIndex.ofLexemes_eq_ok_iff` — what an index of lexemes is made of
- `RootIndex.mem_get_ofLexemes_iff` — which roots of lexemes are found
- `RootIndex.exists_origin` — where the roots found come from
- `RootIndex.exists_root_of_mem_get` — how the roots found are spelled
-/

namespace List

variable {α : Type} [BEq α] [LawfulBEq α]

theorem eraseDups_concat (l : List α) (a : α) :
    (l ++ [a]).eraseDups = if a ∈ l then l.eraseDups else l.eraseDups ++ [a] := by
  by_cases ha : a ∈ l <;> simp [eraseDups_append, removeAll, ha, eraseDups_cons]

theorem nodup_eraseDups (l : List α) : l.eraseDups.Nodup := by
  induction l using reverseRecOn with
  | nil => exact nodup_nil
  | append_singleton l a ih =>
    rw [eraseDups_concat]
    split
    · exact ih
    · next ha =>
      rw [← concat_eq_append]
      exact ih.concat (mt mem_eraseDups.mp ha)

end List

namespace TurkishMorphology.RootIndex

variable {r : Root} {s : Word}

def lookup (rs : List Root) (s : Word) : List Root :=
  (rs.filter fun r => r.surface = s).eraseDups

theorem mem_lookup_iff {rs : List Root} : r ∈ lookup rs s ↔ r ∈ rs ∧ r.surface = s := by
  simp [lookup, List.mem_eraseDups]

theorem lookup_append_singleton (rs : List Root) (r : Root) (s : Word) :
    lookup (rs ++ [r]) s =
      if s = r.surface ∧ r ∉ lookup rs s then lookup rs s ++ [r] else lookup rs s := by
  by_cases hs : r.surface = s
  · have hfilter : (rs ++ [r]).filter (fun r => r.surface = s) =
        rs.filter (fun r => r.surface = s) ++ [r] := by
      rw [List.filter_append, List.filter_singleton, decide_eq_true hs, cond_true]
    have hmem : r ∈ rs.filter (fun r => r.surface = s) ↔ r ∈ lookup rs s :=
      List.mem_eraseDups.symm
    rw [lookup, hfilter, List.eraseDups_concat, ← lookup]
    by_cases hr : r ∈ lookup rs s
    · rw [if_pos (hmem.mpr hr), if_neg fun h => h.2 hr]
    · rw [if_neg (mt hmem.mp hr), if_pos ⟨hs.symm, hr⟩]
  · have hne : ¬ s = r.surface := fun h => hs h.symm
    simp [lookup, hs, hne]

theorem nodup_lookup (rs : List Root) (s : Word) : (lookup rs s).Nodup :=
  List.nodup_eraseDups _

theorem ofRoots_append (rs rs' : List Root) : ofRoots (rs ++ rs') = rs'.foldl insert (ofRoots rs) :=
  List.foldl_append ..

theorem ofRoots_concat (rs : List Root) (r : Root) :
    ofRoots (rs ++ [r]) = (ofRoots rs).insert r :=
  ofRoots_append rs [r]

/-- An index made of a list of roots finds what going through the list finds. -/
theorem get_ofRoots (rs : List Root) (s : Word) : (ofRoots rs).get s = lookup rs s := by
  induction rs using List.reverseRecOn with
  | nil => exact get_empty s
  | append_singleton rs r ih =>
    rw [ofRoots_concat, get_insert, lookup_append_singleton, ih]

theorem mem_get_ofRoots_iff {rs : List Root} : r ∈ (ofRoots rs).get s ↔ r ∈ rs ∧ r.surface = s := by
  rw [get_ofRoots, mem_lookup_iff]

theorem insert_of_mem {m : RootIndex} (h : r ∈ m.get r.surface) : m.insert r = m :=
  if_pos (List.contains_iff_mem.mpr h)

theorem insert_of_notMem {m : RootIndex} (h : r ∉ m.get r.surface) : m.insert r =
    { buckets := m.buckets.insert r.surface (m.get r.surface ++ [r]), size := m.size + 1 } :=
  if_neg (mt List.contains_iff_mem.mp h)

theorem contains_of_mem_get {m : RootIndex} (h : r ∈ m.get s) : m.contains s = true := by
  rw [get] at h
  rw [contains, Std.HashMap.contains_eq_isSome_getElem?]
  cases hbucket : m.buckets[s]? with
  | none =>
    rw [hbucket] at h
    cases h
  | some bucket => rfl

/-- Adding a root makes room for its spelling and for no other. -/
theorem contains_insert (m : RootIndex) (r : Root) (s : Word) :
    (m.insert r).contains s = (m.contains s || decide (r.surface = s)) := by
  by_cases hr : r ∈ m.get r.surface
  · rw [insert_of_mem hr]
    by_cases hs : r.surface = s
    · rw [contains_of_mem_get (hs ▸ hr), Bool.true_or]
    · rw [decide_eq_false hs, Bool.or_false]
  · rw [insert_of_notMem hr, contains, Std.HashMap.contains_insert, ← contains, Bool.or_comm,
      beq_eq_decide]

theorem contains_ofRoots (rs : List Root) (s : Word) :
    (ofRoots rs).contains s = true ↔ ∃ r ∈ rs, r.surface = s := by
  induction rs using List.reverseRecOn with
  | nil => simp [ofRoots, empty, contains]
  | append_singleton rs r ih =>
    rw [ofRoots_concat, contains_insert, Bool.or_eq_true, ih, decide_eq_true_iff]
    simp [or_and_right, exists_or]

theorem size_insert (m : RootIndex) (r : Root) :
    (m.insert r).size = if r ∈ m.get r.surface then m.size else m.size + 1 := by
  by_cases h : r ∈ m.get r.surface
  · rw [insert_of_mem h, if_pos h]
  · rw [if_neg h, insert, if_neg (mt List.contains_iff_mem.mp h)]

theorem size_ofRoots (rs : List Root) : (ofRoots rs).size = rs.eraseDups.length := by
  induction rs using List.reverseRecOn with
  | nil => rfl
  | append_singleton rs r ih =>
    have hmem : r ∈ (ofRoots rs).get r.surface ↔ r ∈ rs := by simp [mem_get_ofRoots_iff]
    rw [ofRoots_concat, size_insert, List.eraseDups_concat, ih]
    by_cases hr : r ∈ rs
    · rw [if_pos hr, if_pos (hmem.mpr hr)]
    · rw [if_neg hr, if_neg (mt hmem.mp hr), List.length_append, List.length_singleton]

theorem mem_toList_iff {m : RootIndex} : r ∈ m.toList ↔ ∃ s, r ∈ m.get s := by
  rw [toList, List.mem_flatMap]
  constructor
  · rintro ⟨⟨s, bucket⟩, hbucket, hr⟩
    refine ⟨s, ?_⟩
    rw [get, Std.HashMap.mem_toList_iff_getElem?_eq_some.mp hbucket]
    exact hr
  · rintro ⟨s, hr⟩
    rw [get] at hr
    cases hbucket : m.buckets[s]? with
    | none =>
      rw [hbucket] at hr
      cases hr
    | some bucket =>
      rw [hbucket] at hr
      exact ⟨(s, bucket), Std.HashMap.mem_toList_iff_getElem?_eq_some.mpr hbucket, hr⟩

/-- An index made of a list of roots holds each of them once. -/
theorem toList_ofRoots_perm (rs : List Root) : (ofRoots rs).toList.Perm rs.eraseDups := by
  have hbucket : ∀ p ∈ (ofRoots rs).buckets.toList, p.2 = lookup rs p.1 := by
    intro p hp
    rw [← get_ofRoots, get, Std.HashMap.mem_toList_iff_getElem?_eq_some.mp hp]
    rfl
  have hnodup : (ofRoots rs).toList.Nodup := by
    refine List.nodup_flatMap.mpr ⟨fun p hp => ?_, ?_⟩
    · rw [hbucket p hp]
      exact nodup_lookup rs p.1
    · -- Buckets are of different spellings, and each root is in the bucket of its own.
      refine Std.HashMap.distinct_keys_toList.imp_of_mem fun {p q} hp hq hkeys r hrp hrq => ?_
      have hfiled : ∀ b ∈ (ofRoots rs).buckets.toList, r ∈ b.2 → r.surface = b.1 := by
        intro b hb hr
        rw [hbucket b hb] at hr
        exact (mem_lookup_iff.mp hr).2
      exact ne_of_beq_false hkeys ((hfiled p hp hrp).symm.trans (hfiled q hq hrq))
  refine (List.perm_ext_iff_of_nodup hnodup (List.nodup_eraseDups rs)).mpr fun r => ?_
  simp [mem_toList_iff, mem_get_ofRoots_iff, List.mem_eraseDups]

/-- An index made of a list of roots is exact: it finds the roots with a spelling, each once and in
    the order in which they first come; it has room for a spelling just if it finds something; it
    counts the different roots; and a root that comes again, wherever, changes nothing. -/
theorem ofRoots_exact (rs : List Root) :
    (∀ s, (ofRoots rs).get s = (rs.filter fun r => r.surface = s).eraseDups) ∧
    (∀ s, (ofRoots rs).contains s = true ↔ (ofRoots rs).get s ≠ []) ∧
    (ofRoots rs).size = rs.eraseDups.length ∧
    (ofRoots rs).size = (ofRoots rs).toList.length ∧
    (ofRoots rs).toList.Perm rs.eraseDups ∧
    ∀ r ∈ rs, ∀ later, ofRoots (rs ++ r :: later) = ofRoots (rs ++ later) := by
  have hall := toList_ofRoots_perm rs
  refine ⟨get_ofRoots rs, fun s => ?_, size_ofRoots rs, ?_, hall, fun r hr later => ?_⟩
  · rw [contains_ofRoots]
    constructor
    · rintro ⟨r, hr, hs⟩
      exact List.ne_nil_of_mem (mem_get_ofRoots_iff.mpr ⟨hr, hs⟩)
    · intro hne
      obtain ⟨r, hr⟩ := List.exists_mem_of_ne_nil _ hne
      exact ⟨r, mem_get_ofRoots_iff.mp hr⟩
  · rw [size_ofRoots, hall.length_eq]
  · have hfound : r ∈ (ofRoots rs).get r.surface := mem_get_ofRoots_iff.mpr ⟨hr, rfl⟩
    rw [ofRoots_append, ofRoots_append, List.foldl_cons, insert_of_mem hfound]

/-- The roots of the noun `yüz` and of the verb `yüzmek`. -/
def yuzRoots : List Root := [
  Lexeme.plainRoot ⟨"yüz".toList, "yüz".toList, .noun, none, ∅, .dictionary⟩ "yüz".toList,
  Lexeme.plainRoot ⟨"yüzmek".toList, "yüz".toList, .verb, none, ∅, .dictionary⟩ "yüz".toList]

theorem ofRoots_exact_yuz : ∃ r ∈ yuzRoots,
    (ofRoots yuzRoots).get "yüz".toList = yuzRoots ∧ (ofRoots yuzRoots).size = 2 ∧
      ofRoots (yuzRoots ++ r :: yuzRoots) = ofRoots (yuzRoots ++ yuzRoots) := by
  obtain ⟨hget, -, hsize, -, -, hagain⟩ := ofRoots_exact yuzRoots
  have hfirst : yuzRoots[0] ∈ yuzRoots := List.getElem_mem _
  refine ⟨_, hfirst, ?_, ?_, hagain _ hfirst yuzRoots⟩
  · rw [hget]
    decide +kernel
  · rw [hsize]
    decide +kernel

/-- An index of lexemes is made of the roots of all of them. -/
theorem ofLexemes_eq_ok_iff {options : LexiconOptions} {ls : List Lexeme} {index : RootIndex} :
    ofLexemes options ls = .ok index ↔
      ∃ rss, ls.mapM (rootsOf options) = .ok rss ∧ ofRoots rss.flatten = index := by
  rw [ofLexemes, Except.bind_eq_ok_iff]
  simp [pure, Except.pure]

/-- No root is found twice. -/
theorem nodup_get_ofLexemes {options : LexiconOptions} {ls : List Lexeme} {index : RootIndex}
    (h : ofLexemes options ls = .ok index) (s : Word) : (index.get s).Nodup := by
  obtain ⟨rss, -, rfl⟩ := ofLexemes_eq_ok_iff.mp h
  rw [get_ofRoots]
  exact nodup_lookup _ s

/-- An index of lexemes holds the roots of the lexemes under their spellings. -/
theorem mem_get_ofLexemes_iff {options : LexiconOptions} {ls : List Lexeme} {index : RootIndex}
    (h : ofLexemes options ls = .ok index) :
    r ∈ index.get s ↔ r.surface = s ∧ ∃ l ∈ ls, ∃ rs, rootsOf options l = .ok rs ∧ r ∈ rs := by
  obtain ⟨rss, hrss, rfl⟩ := ofLexemes_eq_ok_iff.mp h
  rw [mem_get_ofRoots_iff, and_comm, List.mem_flatten]
  refine and_congr_right fun _ => ?_
  constructor
  · rintro ⟨rs, hrs, hr⟩
    obtain ⟨l, hl, hroots⟩ := (Except.mem_mapM_iff hrss).mp hrs
    exact ⟨l, hl, rs, hroots, hr⟩
  · rintro ⟨l, hl, rs, hroots, hr⟩
    exact ⟨rs, (Except.mem_mapM_iff hrss).mpr ⟨l, hl, hroots⟩, hr⟩

/-- The roots of a lexeme under any options are its roots and copies of them. -/
theorem mem_of_rootsOf {options : LexiconOptions} {l : Lexeme} {rs : List Root}
    (h : rootsOf options l = .ok rs) (hr : r ∈ rs) :
    ∃ roots, l.roots = .ok roots ∧ ∃ s ∈ roots, r ∈ Lexeme.withPlainCopy s := by
  unfold rootsOf at h
  split at h
  · exact (Lexeme.mem_rootsWithPlain_iff h).mp hr
  · exact ⟨rs, h, r, hr, Lexeme.mem_withPlainCopy_iff.mpr (.inl rfl)⟩

theorem lexeme_of_mem_rootsOf {options : LexiconOptions} {l : Lexeme} {rs : List Root}
    (h : rootsOf options l = .ok rs) (hr : r ∈ rs) : r.lexeme = l := by
  obtain ⟨roots, hroots, t, ht, hcopy⟩ := mem_of_rootsOf h hr
  obtain ⟨rfl, -, -⟩ := Lexeme.spells_of_mem_roots hroots ht
  rcases Lexeme.mem_withPlainCopy_iff.mp hcopy with rfl | ⟨-, rfl⟩ <;> rfl

/-- Where a root in an index of lexemes comes from: it is a root of its own lexeme or the copy of
    one. -/
theorem exists_origin {options : LexiconOptions} {ls : List Lexeme} {index : RootIndex}
    (h : ofLexemes options ls = .ok index) (hr : r ∈ index.get s) :
    r.surface = s ∧ r.lexeme ∈ ls ∧
      ∃ roots, r.lexeme.roots = .ok roots ∧ ∃ t ∈ roots, r ∈ Lexeme.withPlainCopy t := by
  obtain ⟨hs, l, hl, rs, hrs, hmem⟩ := (mem_get_ofLexemes_iff h).mp hr
  obtain rfl := lexeme_of_mem_rootsOf hrs hmem
  exact ⟨hs, hl, mem_of_rootsOf hrs hmem⟩

/-- How a root found in an index of lexemes is spelled, but for the circumflexes of a copy. -/
theorem exists_root_of_mem_get {options : LexiconOptions} {ls : List Lexeme} {index : RootIndex}
    (h : ofLexemes options ls = .ok index) (hr : r ∈ index.get s) :
    r.surface = s ∧ ∃ t : Root, r ∈ Lexeme.withPlainCopy t ∧ t.kind = .listed ∧
      t.lexeme = r.lexeme ∧ r.lexeme.Spells t := by
  obtain ⟨hs, -, roots, hroots, t, ht, hcopy⟩ := exists_origin h hr
  obtain ⟨hlexeme, hkind, hspells⟩ := Lexeme.spells_of_mem_roots hroots ht
  exact ⟨hs, t, hcopy, hkind, hlexeme, hspells⟩

end TurkishMorphology.RootIndex
