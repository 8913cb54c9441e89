import TurkishMorphology.Proofs.Analyzer.Walk
/-!
# Parsing a word

Parsing is the search from the first generation: the seeds of the word after the steps forced on
them. A seed comes from a root that a beginning of the word spells, and is the root alone or one of
its fixed paths.

## Main definitions

- `Analyzer.firstGeneration` — where the search for the analyses of a word begins
- `Analyzer.Finds`, `Analyzer.Seeds` — the roots found in a word, and the seeds of a root
- `Analyzer.Reaches` — what the search comes across

## Main statements

- `Analyzer.parse_eq_ok_iff` — parsing in terms of the search
- `Analyzer.mem_firstGeneration_iff` — the first generation
- `Analyzer.mem_parse_iff` — the analyses of a word
-/

namespace TurkishMorphology

namespace Analyzer

variable {z : Analyzer} {word : Word} {a b : Analysis} {results starts : List Analysis}

/-- Where the search for the analyses of a word begins: the seeds of the word, after the steps
    forced on them. -/
def firstGeneration (z : Analyzer) (word : Word) : Except AnalysisFault (List Analysis) := do
  let seeds ← z.seeds word
  z.forcing.apply z.grammar seeds

/-- The root is found under a beginning of the word that is not empty. -/
def Finds (z : Analyzer) (word beginning : Word) (root : Root) : Prop :=
  beginning ≠ [] ∧ beginning <+: word ∧ z.source.accepts beginning word = true ∧
    root ∈ z.source.roots beginning word

/-- The analysis is a fixed path of the root in the word or, where the root has no fixed paths,
    the root alone with the rest of the word ahead. -/
inductive Seeds (z : Analyzer) (word : Word) (root : Root) (rest : Word) : Analysis → Prop
  | path {path a : Analysis} (has : z.fixedPaths.has root = true)
      (mem : path ∈ z.fixedPaths.get root) (rebased : path.rebase word = some a) :
      Seeds z word root rest a
  | root {state : StateId} (has : z.fixedPaths.has root = false)
      (begins : z.grammar.rootState root = .ok state) :
      Seeds z word root rest (Analysis.begin root state rest)

theorem mem_beginnings_iff {beginning : Word} :
    beginning ∈ beginnings word ↔ beginning ≠ [] ∧ beginning <+: word := by
  simp only [beginnings, List.mem_map, List.mem_range]
  constructor
  · rintro ⟨i, hi, rfl⟩
    refine ⟨?_, List.take_prefix _ _⟩
    rw [← List.length_pos_iff, List.length_take]
    omega
  · rintro ⟨hne, hbegins⟩
    have hpos := List.length_pos_iff.mpr hne
    have hle := hbegins.length_le
    refine ⟨beginning.length - 1, by omega, ?_⟩
    rw [Nat.sub_add_cancel hpos]
    exact (List.prefix_iff_eq_take.mp hbegins).symm

theorem mem_seedsOf_iff {root : Root} {rest : Word} {as : List Analysis}
    (h : z.seedsOf word root rest = .ok as) : a ∈ as ↔ z.Seeds word root rest a := by
  unfold seedsOf at h
  split at h
  · next has =>
    cases h
    rw [List.mem_filterMap]
    constructor
    · rintro ⟨path, hmem, hbase⟩
      exact .path has hmem hbase
    · intro hseed
      cases hseed with
      | path _ hmem hbase => exact ⟨_, hmem, hbase⟩
      | root hnone _ => rw [has] at hnone; cases hnone
  · next hnone =>
    split at h
    · next state hstate =>
      cases h
      rw [List.mem_singleton]
      constructor
      · rintro rfl
        exact .root (by simpa using hnone) hstate
      · intro hseed
        cases hseed with
        | path has _ _ => exact absurd has hnone
        | root _ hstate' =>
          rw [hstate] at hstate'
          cases hstate'
          rfl
    · cases h

theorem mem_seedsAt_iff {beginning : Word} {as : List Analysis}
    (h : z.seedsAt word beginning = .ok as) :
    a ∈ as ↔ z.source.accepts beginning word = true ∧
      ∃ root ∈ z.source.roots beginning word, z.Seeds word root (word.drop beginning.length) a := by
  unfold seedsAt at h
  split at h
  · next haccepts =>
    obtain ⟨found, hfound, h⟩ := Except.bind_eq_ok_iff.mp h
    cases h
    rw [List.mem_flatten]
    constructor
    · rintro ⟨as, has, ha⟩
      obtain ⟨root, hroot, has⟩ := (Except.mem_mapM_iff hfound).mp has
      exact ⟨haccepts, root, hroot, (mem_seedsOf_iff has).mp ha⟩
    · rintro ⟨-, root, hroot, hseed⟩
      obtain ⟨as, hmem, has⟩ := Except.exists_of_mem_mapM hfound hroot
      exact ⟨as, hmem, (mem_seedsOf_iff has).mpr hseed⟩
  · next hrefuses =>
    cases h
    simp [hrefuses]

theorem mem_seeds_iff {as : List Analysis} (h : z.seeds word = .ok as) :
    a ∈ as ↔ ∃ beginning root, z.Finds word beginning root ∧
      z.Seeds word root (word.drop beginning.length) a := by
  obtain ⟨ass, hass, h⟩ := Except.bind_eq_ok_iff.mp h
  cases h
  simp only [List.mem_flatten, Except.mem_mapM_iff hass]
  constructor
  · rintro ⟨as, ⟨beginning, hbeginning, has⟩, ha⟩
    obtain ⟨hne, hbegins⟩ := mem_beginnings_iff.mp hbeginning
    obtain ⟨haccepts, root, hroot, hseed⟩ := (mem_seedsAt_iff has).mp ha
    exact ⟨beginning, root, ⟨hne, hbegins, haccepts, hroot⟩, hseed⟩
  · rintro ⟨beginning, root, ⟨hne, hbegins, haccepts, hroot⟩, hseed⟩
    have hbeginning := mem_beginnings_iff.mpr ⟨hne, hbegins⟩
    obtain ⟨as, -, has⟩ := Except.exists_of_mem_mapM hass hbeginning
    exact ⟨as, ⟨beginning, hbeginning, has⟩,
      (mem_seedsAt_iff has).mpr ⟨haccepts, root, hroot, hseed⟩⟩

/-- The first generation consists of the seeds that the steps forced on them fit. -/
theorem mem_firstGeneration_iff (h : z.firstGeneration word = .ok starts) :
    b ∈ starts ↔ ∃ beginning root, z.Finds word beginning root ∧
      ∃ a, z.Seeds word root (word.drop beginning.length) a ∧
        z.forcing.applyTo z.grammar a = .ok (some b) := by
  obtain ⟨seeds, hseeds, h⟩ := Except.bind_eq_ok_iff.mp h
  obtain ⟨forced, hforced, h⟩ := Except.bind_eq_ok_iff.mp h
  cases h
  simp only [List.mem_filterMap, id_eq, exists_eq_right, Except.mem_mapM_iff hforced,
    mem_seeds_iff hseeds]
  constructor
  · rintro ⟨a, ⟨beginning, root, hfinds, hseed⟩, ha⟩
    exact ⟨beginning, root, hfinds, a, hseed, ha⟩
  · rintro ⟨beginning, root, hfinds, a, hseed, ha⟩
    exact ⟨a, ⟨beginning, root, hfinds, hseed⟩, ha⟩

/-- The search for the analyses of a word comes across the analysis. -/
def Reaches (z : Analyzer) (word : Word) (b : Analysis) : Prop :=
  ∃ starts, z.firstGeneration word = .ok starts ∧
    ∃ a ∈ starts, Relation.ReflTransGen z.Leads a b

/-- Running on a word is searching from its first generation; the empty word has no seeds. -/
theorem run_eq (word : Word) :
    z.run word = z.firstGeneration word >>= z.search z.options.maxGenerations := by
  cases word with
  | nil =>
    have hseeds : z.seeds [] = .ok [] := rfl
    have hforced : z.forcing.apply z.grammar [] = .ok [] := rfl
    have hsearch : z.search z.options.maxGenerations [] = .ok [] :=
      search_eq_ok_iff.mpr (.inl ⟨rfl, rfl⟩)
    simp [run, firstGeneration, hseeds, hforced, hsearch, bind, Except.bind]
  | cons c cs =>
    simp only [run, firstGeneration, List.isEmpty_cons, Bool.false_eq_true, if_false]
    cases z.seeds (c :: cs) <;> rfl

theorem parse_eq_ok_iff :
    z.parse word = .ok results ↔ ∃ starts, z.firstGeneration word = .ok starts ∧
      z.search z.options.maxGenerations starts = .ok results := by
  rw [parse, Except.mapError_eq_ok_iff, run_eq, Except.bind_eq_ok_iff]

/-- The analyses of a word are the finished analyses without remaining input that the search
    comes across. -/
theorem mem_parse_iff (hz : z.Stops) (h : z.parse word = .ok results) :
    b ∈ results ↔ z.Reaches word b ∧ z.isFinished b = true ∧ b.remaining = [] := by
  obtain ⟨starts, hstarts, hsearch⟩ := parse_eq_ok_iff.mp h
  rw [mem_search_iff hz hsearch]
  refine and_congr_left fun _ => ?_
  constructor
  · rintro ⟨a, ha, hab⟩
    exact ⟨starts, hstarts, a, ha, hab⟩
  · rintro ⟨starts', hstarts', a, ha, hab⟩
    rw [hstarts] at hstarts'
    cases hstarts'
    exact ⟨a, ha, hab⟩

end Analyzer

end TurkishMorphology
