import TurkishMorphology.Proofs.Lexicon.RootIndex
/-!
# What sources find

Whatever source a root comes from, the beginning of the word for which it is found spells it.

## Main definitions

- `RootSource.Spells` — a source finds only roots that the beginning spells
- `Root.IsOfInput` — roots made from the input
- `SourceOptions.asksDictionary` — whether the dictionary is asked for a beginning

## Main statements

- `RootSource.mem_rootsAlong` — the roots of a chain are found by its links
- `SourceOptions.roots_chain` — which roots are found for a beginning
- `SourceOptions.isOfInput_or_mem_get` — the two origins of a root
- `SourceOptions.spells_chain` — the sources of an analyser over a dictionary
- `SourceOptions.mem_get_of_listed`, `mem_get_of_drops` — roots that come from the dictionary
-/

namespace TurkishMorphology

namespace RootSource

variable {beginning whole : Word} {r : Root}

/-- The roots that the source finds are spelled by the beginning. -/
def Spells (s : RootSource) : Prop :=
  ∀ beginning whole, ∀ r ∈ s.roots beginning whole, r.surface = beginning

/-- A root that a chain finds is found by one of its links, which accepts the beginning. -/
theorem mem_rootsAlong {links : List Link} (h : r ∈ rootsAlong beginning whole links) :
    ∃ link ∈ links, link.source.accepts beginning whole = true ∧
      r ∈ link.source.roots beginning whole := by
  induction links with
  | nil => cases h
  | cons link rest ih =>
    have hlater (hr : r ∈ rootsAlong beginning whole rest) : ∃ l ∈ link :: rest,
        l.source.accepts beginning whole = true ∧ r ∈ l.source.roots beginning whole := by
      obtain ⟨l, hl, hfound⟩ := ih hr
      exact ⟨l, List.mem_cons_of_mem _ hl, hfound⟩
    rw [rootsAlong] at h
    split at h
    · next haccepts =>
      rcases List.mem_append.mp h with h | h
      · exact ⟨link, List.mem_cons_self .., haccepts, h⟩
      · split at h
        · cases h
        · exact hlater h
    · exact hlater h

/-- The links that come after others are asked unless an exclusive link has accepted. -/
theorem rootsAlong_append (links more : List Link) :
    rootsAlong beginning whole (links ++ more) = rootsAlong beginning whole links ++
      if links.any fun link => link.exclusive && link.source.accepts beginning whole then []
      else rootsAlong beginning whole more := by
  induction links with
  | nil => rfl
  | cons link rest ih =>
    rw [List.cons_append, rootsAlong, rootsAlong, ih, List.any_cons]
    cases link.source.accepts beginning whole <;> cases link.exclusive <;> simp

end RootSource

/-- A root made from the input: it is spelled as it stands there, and its lexeme at most forbids
    voicing. -/
structure Root.IsOfInput (beginning : Word) (r : Root) : Prop where
  surface : r.surface = beginning
  kind : r.kind ≠ .listed
  attributes : r.lexeme.attributes = .ofList [.noVoicing] ∨ r.lexeme.attributes = ∅

namespace SourceOptions

open RootSource

variable {options : SourceOptions} {index : RootIndex} {beginning whole : Word} {r : Root}

/-- The sources that may stand besides the dictionary. -/
theorem mem_besides {link : Link} (h : link ∈ options.besides) :
    link = ⟨numeral, true⟩ ∨ link = ⟨.punctuation, true⟩ ∨ link = ⟨apostrophe, false⟩ ∨
      link = ⟨capitalised, false⟩ := by
  simp only [besides, List.mem_append] at h
  rcases h with (h | h) | h
  · split at h
    · exact .inl (List.mem_singleton.mp h)
    · cases h
  · split at h
    · exact .inr (.inl (List.mem_singleton.mp h))
    · cases h
  · split at h
    · rcases List.mem_cons.mp h with h | h
      · exact .inr (.inr (.inl h))
      · exact .inr (.inr (.inr (List.mem_singleton.mp h)))
    · cases h

/-- The sources besides the dictionary take roots from the input as it stands. -/
theorem isOfInput_of_mem_roots {link : Link} (h : link ∈ options.besides)
    (hr : r ∈ link.source.roots beginning whole) : r.IsOfInput beginning := by
  rcases mem_besides h with rfl | rfl | rfl | rfl
  · change r ∈ numeralRoots beginning at hr
    unfold numeralRoots at hr
    split at hr
    · cases hr
    · obtain rfl := List.mem_singleton.mp hr
      exact ⟨rfl, nofun, .inl rfl⟩
  · obtain rfl := List.mem_singleton.mp hr
    exact ⟨rfl, nofun, .inr rfl⟩
  · obtain rfl := List.mem_singleton.mp hr
    exact ⟨rfl, nofun, .inl rfl⟩
  · obtain rfl := List.mem_singleton.mp hr
    exact ⟨rfl, nofun, .inl rfl⟩

/-- Whether the dictionary is asked for a beginning of a word. -/
def asksDictionary (options : SourceOptions) (beginning whole : Word) : Bool :=
  !beginning.isEmpty &&
    !options.besides.any fun link => link.exclusive && link.source.accepts beginning whole

/-- Roots of the dictionary come after those of the other sources. -/
theorem roots_chain (options : SourceOptions) (index : RootIndex) (beginning whole : Word) :
    (options.chain index).roots beginning whole = rootsAlong beginning whole options.besides ++
      if options.asksDictionary beginning whole then index.get beginning else [] := by
  change rootsAlong beginning whole (options.besides ++ [⟨dictionary index, false⟩]) = _
  have hdictionary : rootsAlong beginning whole [⟨dictionary index, false⟩] =
      if beginning.isEmpty then [] else index.get beginning := by
    by_cases hempty : beginning.isEmpty = true <;> simp [rootsAlong, dictionary, hempty]
  rw [rootsAlong_append, hdictionary, asksDictionary]
  cases beginning.isEmpty <;>
    cases options.besides.any fun link => link.exclusive && link.source.accepts beginning whole <;>
      rfl

theorem accepts_chain (options : SourceOptions) (index index' : RootIndex)
    (beginning whole : Word) : (options.chain index).accepts beginning whole =
      (options.chain index').accepts beginning whole := by
  simp [chain, chainWith, RootSource.chain, dictionary]

/-- A root is found by a source besides the dictionary, which accepts the beginning, or it is in the
    dictionary. -/
theorem besides_or_mem_get (hr : r ∈ (options.chain index).roots beginning whole) :
    (∃ link ∈ options.besides, link.source.accepts beginning whole = true ∧
      r ∈ link.source.roots beginning whole) ∨ r ∈ index.get beginning := by
  obtain ⟨link, hlink, haccepts, hr⟩ := mem_rootsAlong hr
  rcases List.mem_append.mp hlink with hlink | hlink
  · exact .inl ⟨link, hlink, haccepts, hr⟩
  · obtain rfl := List.mem_singleton.mp hlink
    exact .inr hr

theorem isOfInput_or_mem_get (hr : r ∈ (options.chain index).roots beginning whole) :
    r.IsOfInput beginning ∨ r ∈ index.get beginning :=
  (besides_or_mem_get hr).imp_left fun ⟨_, hlink, _, hr⟩ => isOfInput_of_mem_roots hlink hr

theorem spells_chain (options : SourceOptions) {lexicon : LexiconOptions} {ls : List Lexeme}
    (h : RootIndex.ofLexemes lexicon ls = .ok index) : (options.chain index).Spells := by
  intro beginning whole r hr
  rcases isOfInput_or_mem_get hr with hinput | hget
  · exact hinput.surface
  · exact ((RootIndex.mem_get_ofLexemes_iff h).mp hget).1

theorem mem_get_of_listed (hr : r ∈ (options.chain index).roots beginning whole)
    (hlisted : r.kind = .listed) : r ∈ index.get beginning :=
  (isOfInput_or_mem_get hr).resolve_left fun hinput => hinput.kind hlisted

/-- The lexemes of roots from the input have no attribute that changes roots. -/
theorem mem_get_of_drops (hr : r ∈ (options.chain index).roots beginning whole)
    (hdrops : r.lexeme.has .progressiveVowelDrop = true) : r ∈ index.get beginning := by
  refine (isOfInput_or_mem_get hr).resolve_left fun hinput => ?_
  unfold Lexeme.has at hdrops
  rcases hinput.attributes with hattributes | hattributes
  all_goals
    rw [hattributes] at hdrops
    exact absurd hdrops (by decide)

end SourceOptions

end TurkishMorphology
