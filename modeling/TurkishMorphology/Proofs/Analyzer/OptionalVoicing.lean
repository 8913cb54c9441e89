import TurkishMorphology.Proofs.Analysis.Irregular
import TurkishMorphology.Proofs.Analyzer.Soundness
import TurkishMorphology.Proofs.Lexicon.Alternation
import TurkishMorphology.Proofs.Lexicon.Circumflex
/-!
# Optional voicing

A noun whose final stop may be voiced has two roots, and the unaltered one is left open to vowels:
it expects nothing. But the gate on stops asks only whether the lexeme forbids voicing, so it
refuses every vowel after the unaltered root. Of the two spellings of a word with a suffix that
begins with a vowel only the voiced one has analyses.

## Main definitions

- `Analysis.IsHeldBack` — nothing was spoken after a stop that has to be voiced, and a vowel is next
- `Analyzer.ReadsAs` — analyses of a word with a given root and given steps

## Main statements

- `Analysis.IsHeldBack.reflTransGen` — such an analysis never goes on into the vowel
- `Analyzer.optional_voicing_iff` — the two spellings agree only where neither has analyses
- `Analyzer.exists_optional_voicing_refused` — `kalbı` is analysed, `kalpı` is not
-/

namespace TurkishMorphology

namespace Analysis

variable {g : Grammar} {a b : Analysis} {r : Realization} {target : StateId}

/-- Nothing was spoken after a root whose final stop has to be voiced, and a vowel is next. -/
structure IsHeldBack (a : Analysis) : Prop where
  unspoken : a.steps.all Step.isBlank = true
  lexeme : a.lexemeAttributes = a.root.lexeme.attributes
  stop : a.mustVoice = true
  vowel : a.remaining.head?.any Alphabet.isVowel = true

theorem isHeldBack_begin {root : Root} {rest : Word} (state : StateId)
    (hstop : (root.surface.getLast?.any fun c => (Alphabet.letter c).isVoicelessStop) = true)
    (hvoices : root.lexeme.attributes.contains .noVoicing = false)
    (hvowel : rest.head?.any Alphabet.isVowel = true) :
    (begin root state rest).IsHeldBack where
  unspoken := rfl
  lexeme := rfl
  stop := by simp [mustVoice, begin, hstop, hvoices]
  vowel := hvowel

/-- The gate on stops lets only silent steps pass. -/
theorem IsHeldBack.text_eq_nil (h : a.IsHeldBack) (hallows : a.Allows g r target) :
    r.text = [] := by
  cases htext : r.text with
  | nil => rfl
  | cons c cs =>
    obtain ⟨rest, hrest⟩ := hallows.input
    have hvowel : Alphabet.isVowel c = true := by simpa [← hrest, htext] using h.vowel
    have hfollows := hallows.follows
    simp [mayFollow, htext, hvowel, h.stop] at hfollows

theorem IsHeldBack.extend (h : a.IsHeldBack) (hallows : a.Allows g r target) :
    (a.extend g r target).IsHeldBack := by
  have htext := h.text_eq_nil hallows
  have hsurface : (a.extend g r target).surface = a.surface := by simp [htext]
  have hunspoken : (a.extend g r target).steps.all Step.isBlank = true := by
    simp [h.unspoken, Step.isBlank, Realization.isBlank, nextStep, htext, Word.isBlank]
  have hlexeme : (a.extend g r target).lexemeAttributes = a.root.lexeme.attributes := by
    change lexemeView _ (a.extend g r target).steps _ = _
    rw [lexemeView, if_pos hunspoken]
  constructor
  · exact hunspoken
  · exact hlexeme
  · rw [mustVoice, hsurface, hlexeme, ← h.lexeme]
    exact h.stop
  · simpa [htext] using h.vowel

/-- However it goes on, the vowel stays ahead. -/
theorem IsHeldBack.reflTransGen (h : a.IsHeldBack) (hab : Relation.ReflTransGen (Takes g) a b) :
    b.IsHeldBack :=
  invariant_of_takes hab h fun _ _ _ hc _ hallows => hc.extend hallows

theorem IsHeldBack.remaining_ne_nil (h : a.IsHeldBack) : a.remaining ≠ [] := by
  intro hnil
  have hvowel := h.vowel
  simp [hnil] at hvowel

end Analysis

/-- A root that begins a longer word with a letter, and is not set off by an apostrophe, comes from
    the dictionary. -/
theorem SourceOptions.mem_get_of_letter {options : SourceOptions} {index : RootIndex}
    {beginning rest : Word} {r : Root} {c : Char}
    (hr : r ∈ (options.chain index).roots beginning (beginning ++ rest)) (hc : c ∈ beginning)
    (hdigit : c.isDigit = false) (hcomma : c ≠ ',') (hrest : rest ≠ [])
    (hapostrophe : rest.head? ≠ some '\'') : r ∈ index.get beginning := by
  have hlonger : beginning ≠ beginning ++ rest := by simpa using hrest
  refine (besides_or_mem_get hr).resolve_left ?_
  rintro ⟨link, hlink, haccepts, -⟩
  rcases mem_besides hlink with rfl | rfl | rfl | rfl
  · simp only [RootSource.numeral, Bool.and_eq_true] at haccepts
    rcases Numeral.digit_or_comma_of_isNumeral haccepts.1 hc with hc | hc
    · rw [hdigit] at hc
      cases hc
    · exact hcomma hc
  · simp [RootSource.punctuation, hlonger] at haccepts
  · simp [RootSource.apostrophe, RootSource.rest?, hapostrophe] at haccepts
  · simp [RootSource.capitalised, hlonger] at haccepts

section Roots

variable {l : Lexeme} {rs : List Root} {r : Root}

theorem Lexeme.has_of_voicingOpt (hattributes : l.attributes = .ofList [.voicingOpt])
    (x : LexemeAttribute) : l.has x = decide (x = .voicingOpt) := by
  simp [has, hattributes, FlagSet.contains_ofList]

/-- No root of a noun with optional voicing asks for a consonant. -/
theorem Lexeme.contains_consonantStart_of_voicingOpt
    (hattributes : l.attributes = .ofList [.voicingOpt]) (hrs : l.roots = .ok rs) (hr : r ∈ rs) :
    r.expectations.contains .consonantStart = false := by
  have hhas := has_of_voicingOpt hattributes
  have hmodified : l.isModified = true :=
    isModified_of_has (m := .voicingOpt) (by simp [hhas]) (by decide)
  obtain ⟨a, ha, ⟨-, hexpects⟩ | ⟨-, -, hexpects⟩⟩ :=
    exists_alternation_of_mem_roots hrs hr hmodified (by simp [hhas])
  · rw [hexpects, Alternation.contains_consonantStart_unaltered ha]
    simp [hhas]
  · rw [hexpects, Alternation.contains_consonantStart_altered ha]

end Roots

/-- The form of a step, what it adds, and where it leads. -/
def Step.shape (s : Step) : FormId × Word × StateId :=
  (s.realization.form, s.realization.text, s.target)

namespace Analyzer

variable {z : Analyzer} {index : RootIndex} {options : Options}

/-- The word made of a root and a rest has an analysis with a root of that spelling and with steps
    of the given shapes. -/
def ReadsAs (z : Analyzer) (root rest : Word) (shapes : List (FormId × Word × StateId)) : Prop :=
  ∃ results, z.parse (root ++ rest) = .ok results ∧
    ∃ a ∈ results, a.root.surface = root ∧ a.steps.map Step.shape = shapes

/-- Nouns have no fixed paths. -/
theorem IsTurkish.has_eq_false_of_noun (h : z.IsTurkish index options) {root : Root}
    (hpos : root.lexeme.pos = .noun) : z.fixedPaths.has root = false := by
  rw [← Bool.not_eq_true]
  intro hhas
  have hpaths := h.fixedPaths
  rw [← h.grammar] at hpaths
  obtain ⟨path, hmem⟩ := FixedPaths.exists_mem_get_of_has hpaths hhas
  have hpath := h.isPathOf hmem
  rw [h.grammar] at hpath
  exact hpath.pos_ne_noun hpos

/-- The lexeme is a noun whose lemma root ends in a stop that can be voiced. -/
structure IsStopNoun (l : Lexeme) : Prop where
  pos : l.pos = .noun
  stop : ∃ c ∈ ['p', 'ç', 't', 'k'], l.lemmaRoot.getLast? = some c

theorem isVoicelessStop_of_mem {c : Char} (hc : c ∈ ['p', 'ç', 't', 'k']) :
    c.isDigit = false ∧ c ≠ ',' ∧ (Alphabet.letter c).isVoicelessStop = true := by
  have hall : ['p', 'ç', 't', 'k'].all (fun c => !c.isDigit && c != ','
      && (Alphabet.letter c).isVoicelessStop) = true := by decide
  have hstop := List.all_eq_true.mp hall c hc
  simp only [Bool.and_eq_true, Bool.not_eq_true', bne_iff_ne] at hstop
  exact ⟨hstop.1.1, hstop.1.2, hstop.2⟩

variable {lexicon : LexiconOptions} {l : Lexeme} {s : Word}

/-- Where a noun that ends in a stop is the only lexeme, the root found under it before a vowel is
    its own: a stop is no number, and with a vowel after it no whole word and not set off. -/
theorem IsTurkish.lexeme_eq_of_finds (h : z.IsTurkish index options) (hl : IsStopNoun l)
    (hindex : RootIndex.ofLexemes lexicon [l] = .ok index)
    (hvowel : s.head?.any Alphabet.isVowel = true) {root : Root}
    (hfinds : z.Finds (l.lemmaRoot ++ s) l.lemmaRoot root) : root.lexeme = l := by
  obtain ⟨-, -, -, hroot⟩ := hfinds
  obtain ⟨c, hc, hlast⟩ := hl.stop
  obtain ⟨hdigit, hcomma, -⟩ := isVoicelessStop_of_mem hc
  obtain ⟨v, hv, hvowel⟩ := (Option.any_eq_true ..).mp hvowel
  rw [h.source] at hroot
  have hmem : root ∈ index.get l.lemmaRoot := by
    refine SourceOptions.mem_get_of_letter hroot (List.mem_of_getLast? hlast) hdigit hcomma ?_ ?_
    · rintro rfl
      cases hv
    · rw [hv]
      rintro ⟨rfl⟩
      exact absurd hvowel (by decide)
  exact List.mem_singleton.mp (RootIndex.exists_origin hindex hmem).2.1

/-- Where such a noun is the only lexeme and does not forbid voicing, no analysis with its unaltered
    root goes on with a vowel. -/
theorem IsTurkish.not_readsAs (h : z.IsTurkish index options) (hl : IsStopNoun l)
    (hvoices : l.attributes.contains .noVoicing = false)
    (hindex : RootIndex.ofLexemes lexicon [l] = .ok index)
    (hvowel : s.head?.any Alphabet.isVowel = true) (shapes : List (FormId × Word × StateId)) :
    ¬ z.ReadsAs l.lemmaRoot s shapes := by
  rintro ⟨results, hparse, b, hb, hsurface, -⟩
  obtain ⟨hreaches, -, hremaining⟩ := (mem_parse_iff h.stops hparse).mp hb
  obtain ⟨beginning, root, hfinds, a, hseed, hab⟩ := h.derives_of_reaches hreaches
  have hspelled : root.surface = beginning := h.spells hindex _ _ _ hfinds.2.2.2
  have hroot_eq : b.root = root := (Analysis.root_eq_of_takes hab).trans (h.root_eq_of_seeds hseed)
  obtain rfl : beginning = l.lemmaRoot := by rw [← hspelled, ← hroot_eq, hsurface]
  have hlexeme := h.lexeme_eq_of_finds hl hindex hvowel hfinds
  cases hseed with
  | path hhas _ _ =>
    rw [h.has_eq_false_of_noun (hlexeme ▸ hl.pos)] at hhas
    cases hhas
  | @root state _ _ =>
    obtain ⟨c, hc, hlast⟩ := hl.stop
    obtain ⟨-, -, hvoiceless⟩ := isVoicelessStop_of_mem hc
    have hstart : (Analysis.begin root state s).IsHeldBack :=
      Analysis.isHeldBack_begin state (by simp [hspelled, hlast, hvoiceless])
        (hlexeme ▸ hvoices) hvowel
    rw [List.drop_left] at hab
    exact (hstart.reflTransGen hab).remaining_ne_nil hremaining

/-- The roots of a noun with optional voicing are left open to vowels, but none of its words that go
    on with a vowel is analysed with the unaltered root. So the unaltered root has the analyses of
    the voiced one, or of any other, exactly where that one has none. -/
theorem optional_voicing_iff (hl : IsStopNoun l)
    (hattributes : l.attributes = .ofList [.voicingOpt])
    (hindex : RootIndex.ofLexemes lexicon [l] = .ok index) (hz : ofIndex index options = .ok z)
    (hvowel : s.head?.any Alphabet.isVowel = true) :
    (∀ spelling, ∀ r ∈ index.get spelling, r.expectations.contains .consonantStart = false) ∧
    (∀ shapes, ¬ z.ReadsAs l.lemmaRoot s shapes) ∧
    ∀ v shapes, ((z.ReadsAs v s shapes ↔ z.ReadsAs l.lemmaRoot s shapes) ↔
      ¬ z.ReadsAs v s shapes) := by
  have hvoices : l.attributes.contains .noVoicing = false := by
    rw [hattributes]
    decide
  have hnone : ∀ shapes, ¬ z.ReadsAs l.lemmaRoot s shapes :=
    (ofIndex_eq_ok_iff.mp hz).not_readsAs hl hvoices hindex hvowel
  refine ⟨fun spelling r hr => ?_, hnone, fun v shapes => ?_⟩
  · obtain ⟨-, hmem, roots, hroots, t, ht, hcopy⟩ := RootIndex.exists_origin hindex hr
    rw [List.mem_singleton.mp hmem] at hroots
    have hopen := Lexeme.contains_consonantStart_of_voicingOpt hattributes hroots ht
    rcases Lexeme.mem_withPlainCopy_iff.mp hcopy with rfl | ⟨-, rfl⟩ <;> exact hopen
  · simp [hnone shapes]

/-- A noun with optional voicing. -/
def kalpLexeme : Lexeme where
  citation := "kalp".toList
  lemmaRoot := "kalp".toList
  pos := .noun
  attributes := .ofList [.voicingOpt]

/-- The analyser over a dictionary with `kalp` alone. -/
def kalp : Analyzer := evaluate {} {} "kalp [A:VoicingOpt]".toList (by decide +kernel)

theorem readAll_kalp : Entry.readAll "kalp [A:VoicingOpt]".toList = .ok [kalpLexeme] := by
  decide +kernel

/-- For `kalp` before `a`. -/
theorem optional_voicing_iff_kalp :
    IsStopNoun kalpLexeme ∧ kalpLexeme.attributes = .ofList [.voicingOpt] ∧
      ∃ index, RootIndex.ofLexemes {} [kalpLexeme] = .ok index ∧ ofIndex index {} = .ok kalp ∧
        (∀ spelling, ∀ r ∈ index.get spelling, r.expectations.contains .consonantStart = false) ∧
        (∀ shapes, ¬ kalp.ReadsAs "kalp".toList "a".toList shapes) ∧
        ∀ v shapes, ((kalp.ReadsAs v "a".toList shapes ↔
          kalp.ReadsAs "kalp".toList "a".toList shapes) ↔ ¬ kalp.ReadsAs v "a".toList shapes) := by
  have hl : IsStopNoun kalpLexeme := ⟨rfl, 'p', by decide, by decide⟩
  have hz : ofDictionary {} {} "kalp [A:VoicingOpt]".toList = .ok kalp := ofDictionary_evaluate _
  obtain ⟨lexemes, hlexemes, index, hindex, hturkish⟩ := ofDictionary_eq_ok_iff.mp hz
  obtain rfl : lexemes = [kalpLexeme] := Except.ok.inj (hlexemes.symm.trans readAll_kalp)
  have hindexed : ofIndex index {} = .ok kalp := ofIndex_eq_ok_iff.mpr hturkish
  have hopt : kalpLexeme.attributes = .ofList [.voicingOpt] := rfl
  have hvoiced := optional_voicing_iff (s := "a".toList) hl hopt hindex hindexed (by decide)
  exact ⟨hl, hopt, index, hindex, hindexed, hvoiced⟩

/-- The accusative `kalbı` is analysed with the voiced root, and `kalpı` is not with the unaltered
    one. -/
theorem exists_optional_voicing_refused :
    Entry.readAll "kalp [A:VoicingOpt]".toList = .ok [kalpLexeme] ∧
      ofDictionary {} {} "kalp [A:VoicingOpt]".toList = .ok kalp ∧
      ∃ shapes, kalp.ReadsAs "kalb".toList "ı".toList shapes ∧
        ¬ kalp.ReadsAs "kalp".toList "ı".toList shapes := by
  have hz : ofDictionary {} {} "kalp [A:VoicingOpt]".toList = .ok kalp := ofDictionary_evaluate _
  obtain ⟨voiced, hvoiced, hfound⟩ := exists_of_finds hz "kalbı".toList
    (fun results => results.any fun a => a.root.surface = "kalb".toList) (by decide +kernel)
  obtain ⟨unvoiced, hunvoiced, hnone⟩ := exists_of_finds hz "kalpı".toList
    List.isEmpty (by decide +kernel)
  obtain ⟨a, ha, hsurface⟩ : ∃ a ∈ voiced, a.root.surface = "kalb".toList := by simpa using hfound
  refine ⟨readAll_kalp, hz, a.steps.map Step.shape, ⟨voiced, hvoiced, a, ha, hsurface, rfl⟩, ?_⟩
  rintro ⟨results, hresults, b, hb, -⟩
  obtain rfl : results = unvoiced := Except.ok.inj (hresults.symm.trans hunvoiced)
  simp [List.isEmpty_iff.mp hnone] at hb

end Analyzer

end TurkishMorphology
