import TurkishMorphology.Proofs.Analysis.Progressive
import TurkishMorphology.Proofs.Analyzer.Voicing
import TurkishMorphology.Proofs.Lexicon.Alternation
/-!
# Verbs that drop their vowel before the progressive

A verb such as `aramak` has the shortened root `ar` for the progressive and the whole root `ara`
for everything else. A rule forces the progressive on the shortened root, once, before the search.
A guard keeps it from the whole root until something else is spoken, however the analysis comes to
the place of the tense. So each root has the progressive where the other one has it not.

## Main definitions

- `Analysis.firstSpoken?` — the first step that adds something visible
- `Analysis.BeginsProgressively` — the positive and the progressive come first
- `Analysis.DelaysProgressive` — the progressive comes after something visible

## Main statements

- `Lexeme.wantsVowel_of_mem_roots` — the shortened root wants a vowel, so no draft is about it
- `Forcing.beginsProgressively_of_takeSteps` — the steps that are forced on the shortened root
- `Analysis.DelaysProgressive.takes` — steps along the grammar keep the progressive from the whole
  root
- `Analyzer.progressive_of_mem_parse` — both roots in what an analyser finds
-/

namespace TurkishMorphology

/-- Dropping the final vowel makes the altered root want a vowel. -/
theorem Alternation.wantsVowel_of_ofLexeme {l : Lexeme} {a : Alternation}
    (h : ofLexeme l = .ok a) (hdrops : l.has .progressiveVowelDrop = true) :
    a.altered.contains .vowelStart = true := by
  obtain ⟨-, -, c, -, -, -, hfinal⟩ := ofLexeme_eq_ok_iff.mp h
  rw [dropFinal_eq_ok_iff, if_pos hdrops] at hfinal
  obtain ⟨-, rfl⟩ := hfinal
  simp [change]

/-- The altered root of a lexeme that drops its final vowel and is not irregular wants a vowel. -/
theorem Lexeme.wantsVowel_of_mem_roots {l : Lexeme} {rs : List Root} {r : Root}
    (h : l.roots = .ok rs) (hr : r ∈ rs) (hdrops : l.has .progressiveVowelDrop = true)
    (hregular : l.has .rootChange = false) (haltered : r.surface ≠ l.lemmaRoot) :
    r.expectations.contains .vowelStart = true := by
  have hmodified : l.isModified = true := isModified_of_has hdrops (by decide)
  obtain ⟨a, ha, ⟨hsame, -⟩ | ⟨-, -, hexpects⟩⟩ :=
    exists_alternation_of_mem_roots h hr hmodified hregular
  · exact absurd hsame haltered
  · rw [hexpects]
    exact Alternation.wantsVowel_of_ofLexeme ha hdrops

namespace RootIndex

/-- Without copies an index holds the roots of its lexemes and nothing else. -/
theorem exists_roots_of_mem_get {ls : List Lexeme} {index : RootIndex} {r : Root} {s : Word}
    (h : ofLexemes { circumflexFree := false } ls = .ok index) (hr : r ∈ index.get s) :
    ∃ rs, r.lexeme.roots = .ok rs ∧ r ∈ rs := by
  obtain ⟨-, l, -, rs, hrs, hmem⟩ := (mem_get_ofLexemes_iff h).mp hr
  obtain ⟨rfl, -, -⟩ := Lexeme.spells_of_mem_roots (l := l) hrs hmem
  exact ⟨rs, hrs, hmem⟩

end RootIndex

namespace Irregular

/-- The drafts about verbs are about irregular stems. -/
theorem surface_ne_lemmaRoot : ∀ d ∈ drafts, d.pos = .verb → d.surface ≠ d.lemmaRoot := by decide

end Irregular

/-- No draft is about a verb that drops its vowel: the stems of `demek` and `yemek` that drafts are
    about want no vowel. -/
theorem FixedPaths.not_isPathOf_of_drops {g : Grammar} {index : RootIndex} {ls : List Lexeme}
    {root : Root} {path : Analysis}
    (hindex : RootIndex.ofLexemes { circumflexFree := false } ls = .ok index)
    (hpos : root.lexeme.pos = .verb) (hdrops : root.lexeme.has .progressiveVowelDrop = true)
    (hregular : root.lexeme.has .rootChange = false) :
    ¬ IsPathOf g index Irregular.drafts root path := by
  intro h
  have hwants := rootAwaitsVowel_of_isPathOf hindex h
  rw [Analysis.rootAwaitsVowel, h.root_eq] at hwants
  obtain ⟨d, hd, ⟨hget, hconcerns⟩, -⟩ := h.made
  simp only [concerns, decide_eq_true_eq] at hconcerns
  obtain ⟨hlemma, hdraft⟩ := hconcerns
  have haltered : root.surface ≠ root.lexeme.lemmaRoot := by
    rw [(RootIndex.exists_root_of_mem_get hindex hget).1, hlemma]
    exact Irregular.surface_ne_lemmaRoot d hd (hdraft ▸ hpos)
  obtain ⟨rs, hrs, hmem⟩ := RootIndex.exists_roots_of_mem_get hindex hget
  rw [Lexeme.wantsVowel_of_mem_roots hrs hmem hdrops hregular haltered] at hwants
  cases hwants

namespace Analysis

open Turkish

variable {a b : Analysis}

/-- The first step that added something visible. -/
def firstSpoken? (a : Analysis) : Option Step := a.steps.find? fun s => !s.isBlank

/-- The first two steps are the positive, which adds nothing, and the progressive in the template
    that begins with its vowel. -/
def BeginsProgressively (a : Analysis) : Prop :=
  ∃ s t rest, a.steps = s :: t :: rest ∧
    s.realization.suffix = SuffixName.pos.id ∧ s.isBlank = true ∧
    t.realization.suffix = SuffixName.prog.id ∧
    (grammar.form t.realization.form).template.text = ['+', 'I', 'y', 'o', 'r']

/-- The progressive is taken only after something visible. -/
def DelaysProgressive (a : Analysis) : Prop :=
  Step.Each (fun before s => before.all Step.isBlank = true →
    s.realization.suffix ≠ SuffixName.prog.id) a.steps

theorem BeginsProgressively.of_isPrefix (h : a.BeginsProgressively) (hab : a.steps <+: b.steps) :
    b.BeginsProgressively := by
  obtain ⟨s, t, rest, hsteps, hst⟩ := h
  obtain ⟨more, hmore⟩ := hab
  refine ⟨s, t, rest ++ more, ?_, hst⟩
  rw [← hmore, hsteps]
  rfl

theorem delaysProgressive_begin (root : Root) (state : StateId) (rest : Word) :
    (begin root state rest).DelaysProgressive :=
  Step.each_nil

theorem DelaysProgressive.suffix_ne (h : a.DelaysProgressive) {s : Step}
    (hs : a.firstSpoken? = some s) : s.realization.suffix ≠ SuffixName.prog.id := by
  obtain ⟨-, before, after, hsteps, hblank⟩ := List.find?_eq_some_iff_append.mp hs
  exact h before s after hsteps (List.all_eq_true.mpr fun t ht => by simpa using hblank t ht)

theorem lastSpoken?_eq_none_iff : a.lastSpoken? = none ↔ a.steps.all Step.isBlank = true := by
  simp [lastSpoken?]

/-- As long as nothing is spoken, the guard of the progressive keeps it from a whole root that drops
    its vowel. -/
theorem DelaysProgressive.takes (h : a.DelaysProgressive)
    (hdrops : a.root.lexeme.has .progressiveVowelDrop = true) (hwhole : a.root.isUnaltered = true)
    (hab : a.Takes grammar b) : b.DelaysProgressive := by
  obtain ⟨r, target, ⟨-, hform, -⟩, hallows, rfl⟩ := hab
  refine Step.each_append_singleton.mpr ⟨h, fun hblank hprog => ?_⟩
  have hforms : (grammar.suffix SuffixName.prog.id).forms = [progForm] := by decide +kernel
  change r.form ∈ (grammar.suffix r.suffix).forms at hform
  change r.suffix = SuffixName.prog.id at hprog
  rw [hprog, hforms, List.mem_singleton] at hform
  have hguard := hallows.before
  rw [hform, form_progForm] at hguard
  simp [Condition.holdsIfAny, Condition.holds, wholeDroppingRoot, hdrops, hwhole,
    lastSpoken?_eq_none_iff.mpr hblank] at hguard

theorem DelaysProgressive.reflTransGen (h : a.DelaysProgressive)
    (hdrops : a.root.lexeme.has .progressiveVowelDrop = true) (hwhole : a.root.isUnaltered = true)
    (hab : Relation.ReflTransGen (Takes grammar) a b) : b.DelaysProgressive := by
  induction hab with
  | refl => exact h
  | tail hac hcb ih =>
    have hroot := root_eq_of_takes hac
    exact ih.takes (hroot ▸ hdrops) (hroot ▸ hwhole) hcb

end Analysis

namespace Forcing

/-- Forced steps realize the forms that the rule names, without voicing. -/
theorem exists_steps_of_takeSteps {g : Grammar} {a b : Analysis} {steps : List ForcedStep}
    (h : takeSteps g a steps = .ok (some b)) :
    ∃ new, b.steps = a.steps ++ new ∧ List.Forall₂ (fun (step : ForcedStep) (s : Step) =>
      ∃ context, s.realization = g.plainRealization step.form context) steps new := by
  induction steps generalizing a with
  | nil =>
    cases h
    exact ⟨[], (List.append_nil _).symm, .nil⟩
  | cons step rest ih =>
    obtain ⟨c, hc, hb⟩ := takeSteps_cons_eq_ok_iff.mp h
    obtain ⟨-, -, -, rfl⟩ := Analysis.takeForm_eq_ok_iff.mp hc
    obtain ⟨new, hnew, hrest⟩ := ih hb
    exact ⟨_ :: new, by rw [hnew, Analysis.steps_extend, List.append_assoc]; rfl,
      .cons ⟨a.attributes, rfl⟩ hrest⟩

/-- The steps forced on the shortened root are the positive and the progressive. -/
theorem beginsProgressively_of_takeSteps {a b : Analysis} (hfresh : a.steps = [])
    (h : takeSteps Turkish.grammar a progressive.steps = .ok (some b)) :
    b.BeginsProgressively := by
  obtain ⟨new, hsteps, hnew⟩ := exists_steps_of_takeSteps h
  rw [hfresh, List.nil_append] at hsteps
  obtain _ | @⟨_, s, _, _, ⟨context, hs⟩, hnew⟩ := hnew
  obtain _ | @⟨_, t, _, _, ⟨context', ht⟩, hnew⟩ := hnew
  have hpos := hs.trans (Turkish.plainRealization_posForm context)
  have hprog : t.realization = Turkish.grammar.plainRealization Turkish.progForm context' := ht
  refine ⟨s, t, _, hsteps, by rw [hpos], by rw [Step.isBlank, hpos]; rfl, ?_, ?_⟩
  · rw [hprog, Grammar.plainRealization, Turkish.form_progForm]
  · rw [hprog, Grammar.plainRealization, Turkish.form_progForm]
    rfl

end Forcing

namespace Analyzer

open Turkish

variable {z : Analyzer} {word : Word} {a b : Analysis} {index : RootIndex} {options : Options}
  {lexemes : List Lexeme} {text : Word} {results : List Analysis}

/-- What the search comes across with a verb that drops its vowel stems from the root alone, after
    the steps forced on it. -/
theorem IsTurkish.exists_forced_of_drops (h : z.IsTurkish index options)
    (hindex : RootIndex.ofLexemes { circumflexFree := false } lexemes = .ok index)
    (hb : z.Reaches word b) (hpos : b.root.lexeme.pos = .verb)
    (hdrops : b.root.lexeme.has .progressiveVowelDrop = true)
    (hregular : b.root.lexeme.has .rootChange = false) :
    ∃ rest c, Forcing.applyTo Turkish.grammar [Forcing.progressive]
        (Analysis.begin b.root StateName.verbRoot.id rest) = .ok (some c) ∧
      Relation.ReflTransGen (Analysis.Takes Turkish.grammar) c b := by
  obtain ⟨starts, hstarts, c, hc, hcb⟩ := hb
  obtain ⟨beginning, root, -, a, hseed, hac⟩ := (mem_firstGeneration_iff hstarts).mp hc
  have htakes := h.takes_of_reflTransGen hcb
  have hroot : b.root = root := by
    rw [Analysis.root_eq_of_takes htakes,
      Analysis.root_eq_of_takes (Forcing.takes_of_applyTo h.liesAlong hac),
      h.root_eq_of_seeds hseed]
  rw [Forcing.eq_of_turkish h.forcing] at hac
  rw [h.grammar] at hac htakes
  rw [hroot] at hpos hdrops hregular ⊢
  cases hseed with
  | path _ hmem _ =>
    exact absurd (h.isPathOf hmem)
      (FixedPaths.not_isPathOf_of_drops hindex hpos hdrops hregular)
  | @root state _ hstate =>
    rw [h.grammar, rootState_eq_verbRoot_iff.mpr hpos] at hstate
    cases hstate
    exact ⟨_, c, hac, htakes⟩

/-- The analyser over a dictionary with the verb `aramak`. -/
def aramak : Analyzer := evaluate {} {} "aramak".toList (by decide +kernel)

theorem ofDictionary_aramak : ofDictionary {} {} "aramak".toList = .ok aramak :=
  ofDictionary_evaluate _

/-- Whether an analysis has the given root of a verb that drops its vowel and has no irregular
    stem. -/
def isOfDropping (root : Word) (a : Analysis) : Bool :=
  a.root.surface = root && a.root.lexeme.lemmaRoot = "ara".toList && a.root.lexeme.pos = .verb
    && a.root.lexeme.has .progressiveVowelDrop && !a.root.lexeme.has .rootChange

/-- The progressive is on `ar` in `arıyor`, and on `ara` after a suffix. -/
theorem finds_aramak :
    (aramak.finds "arıyor".toList fun results =>
      !results.isEmpty && results.all (isOfDropping "ar".toList)) = true ∧
    (aramak.finds "arayor".toList fun results => results.isEmpty) = true ∧
    ∀ word ∈ ["aramıyor", "aratıyor", "arayabiliyor"],
      (aramak.finds word.toList fun results => results.any fun a => isOfDropping "ara".toList a
        && a.steps.any fun s => s.realization.suffix = SuffixName.prog.id) = true := by
  decide +kernel

theorem isOfDropping_iff {root : Word} :
    isOfDropping root a = true ↔ a.root.surface = root ∧ a.root.lexeme.lemmaRoot = "ara".toList ∧
      a.root.lexeme.pos = .verb ∧ a.root.lexeme.has .progressiveVowelDrop = true ∧
      a.root.lexeme.has .rootChange = false := by
  simp [isOfDropping, and_assoc]

namespace IsTurkish

/-- Both roots of a verb that drops its vowel, in what the search comes across. -/
theorem progressive_of_reaches (h : z.IsTurkish index options)
    (hindex : RootIndex.ofLexemes { circumflexFree := false } lexemes = .ok index)
    (ha : z.Reaches word a) (hpos : a.root.lexeme.pos = .verb)
    (hdrops : a.root.lexeme.has .progressiveVowelDrop = true)
    (hregular : a.root.lexeme.has .rootChange = false) :
    if a.root.isUnaltered then a.DelaysProgressive else a.BeginsProgressively := by
  obtain ⟨rest, c, hforced, hca⟩ := h.exists_forced_of_drops hindex ha hpos hdrops hregular
  have happlies : Forcing.progressive.applies (Analysis.begin a.root StateName.verbRoot.id rest) =
      !a.root.isUnaltered := by
    simp [ForcedRule.applies, Forcing.progressive, Forcing.progressiveRule, Condition.holds,
      Analysis.begin, hdrops]
  rw [Forcing.applyTo, List.find?_singleton, happlies] at hforced
  cases hwhole : a.root.isUnaltered with
  | true =>
    rw [hwhole] at hforced
    cases hforced
    exact (Analysis.delaysProgressive_begin a.root _ rest).reflTransGen hdrops hwhole hca
  | false =>
    rw [hwhole] at hforced
    exact (Forcing.beginsProgressively_of_takeSteps rfl hforced).of_isPrefix
      (Analysis.steps_prefix_of_takes hca)

end IsTurkish

/-- In whatever an analyser over a dictionary without copies finds, a verb that drops its vowel
    before the progressive and has no irregular stem goes on with the positive and the progressive
    where its root is altered; where the root is whole, the first step that is spoken is not the
    progressive. So with `aramak` the progressive `arıyor` is read from `ar` only and there is no
    `arayor`, but after the negative, the causative or the ability `ara` has the progressive as any
    other verb. -/
theorem progressive_of_mem_parse :
    (∀ (options : Options) (text word : Word) (z : Analyzer) (results : List Analysis),
      ofDictionary { circumflexFree := false } options text = .ok z →
      z.parse word = .ok results → ∀ a ∈ results, a.root.lexeme.pos = .verb →
      a.root.lexeme.has .progressiveVowelDrop = true → a.root.lexeme.has .rootChange = false →
        (a.root.surface ≠ a.root.lexeme.lemmaRoot → a.BeginsProgressively) ∧
        (a.root.surface = a.root.lexeme.lemmaRoot → ∀ s, a.firstSpoken? = some s →
          s.realization.suffix ≠ SuffixName.prog.id)) ∧
    ofDictionary {} {} "aramak".toList = .ok aramak ∧
    (∃ results, aramak.parse "arıyor".toList = .ok results ∧ results ≠ [] ∧
      ∀ a ∈ results, a.root.surface = "ar".toList) ∧
    aramak.parse "arayor".toList = .ok [] ∧
    ∀ word ∈ ["aramıyor", "aratıyor", "arayabiliyor"], ∃ results,
      aramak.parse word.toList = .ok results ∧ ∃ a ∈ results, a.root.surface = "ara".toList ∧
        ∃ s ∈ a.steps, s.realization.suffix = SuffixName.prog.id := by
  refine ⟨?_, ofDictionary_aramak, ?_, ?_, ?_⟩
  · intro options text word z results hz hparse a ha hpos hdrops hregular
    obtain ⟨lexemes, -, index, hindex, hturkish⟩ := ofDictionary_eq_ok_iff.mp hz
    obtain ⟨hreaches, -⟩ := (mem_parse_iff hturkish.stops hparse).mp ha
    have hprog := hturkish.progressive_of_reaches hindex hreaches hpos hdrops hregular
    rw [Root.isUnaltered] at hprog
    constructor
    · intro haltered
      rwa [if_neg (by simpa using haltered)] at hprog
    · intro hwhole s hs
      rw [if_pos (by simpa using hwhole)] at hprog
      exact hprog.suffix_ne hs
  · obtain ⟨results, hparse, htest⟩ := exists_of_finds ofDictionary_aramak _ _ finds_aramak.1
    simp only [Bool.and_eq_true, Bool.not_eq_true', List.isEmpty_eq_false_iff, List.all_eq_true,
      isOfDropping_iff] at htest
    exact ⟨results, hparse, htest.1, fun a ha => (htest.2 a ha).1⟩
  · obtain ⟨results, hparse, htest⟩ := exists_of_finds ofDictionary_aramak _ _ finds_aramak.2.1
    obtain rfl := List.isEmpty_iff.mp htest
    exact hparse
  · intro word hword
    obtain ⟨results, hparse, htest⟩ :=
      exists_of_finds ofDictionary_aramak _ _ (finds_aramak.2.2 word hword)
    obtain ⟨a, ha, htest⟩ := List.any_eq_true.mp htest
    rw [Bool.and_eq_true, isOfDropping_iff, List.any_eq_true] at htest
    obtain ⟨⟨hroot, -⟩, s, hs, hprog⟩ := htest
    exact ⟨results, hparse, a, ha, hroot, s, hs, of_decide_eq_true hprog⟩

/-- In `arıyor` the root of `aramak` is altered, in `aramıyor` it is whole. -/
theorem progressive_of_mem_parse_aramak :
    (∃ results, aramak.parse "arıyor".toList = .ok results ∧ ∃ a ∈ results,
      a.root.surface ≠ a.root.lexeme.lemmaRoot ∧ a.BeginsProgressively) ∧
    ∃ results, aramak.parse "aramıyor".toList = .ok results ∧ ∃ a ∈ results,
      a.root.surface = a.root.lexeme.lemmaRoot ∧ ∀ s, a.firstSpoken? = some s →
        s.realization.suffix ≠ SuffixName.prog.id := by
  constructor
  · obtain ⟨results, hparse, htest⟩ := exists_of_finds ofDictionary_aramak _ _ finds_aramak.1
    simp only [Bool.and_eq_true, Bool.not_eq_true', List.isEmpty_eq_false_iff, List.all_eq_true,
      isOfDropping_iff] at htest
    obtain ⟨a, ha⟩ := List.exists_mem_of_ne_nil results htest.1
    obtain ⟨hroot, hlemma, hpos, hdrops, hregular⟩ := htest.2 a ha
    have haltered : a.root.surface ≠ a.root.lexeme.lemmaRoot := by
      rw [hroot, hlemma]
      decide
    exact ⟨results, hparse, a, ha, haltered, (progressive_of_mem_parse.1 _ _ _ _ _
      ofDictionary_aramak hparse a ha hpos hdrops hregular).1 haltered⟩
  · obtain ⟨results, hparse, htest⟩ :=
      exists_of_finds ofDictionary_aramak _ _ (finds_aramak.2.2 "aramıyor" (by decide))
    obtain ⟨a, ha, htest⟩ := List.any_eq_true.mp htest
    rw [Bool.and_eq_true, isOfDropping_iff] at htest
    obtain ⟨⟨hroot, hlemma, hpos, hdrops, hregular⟩, -⟩ := htest
    have hwhole : a.root.surface = a.root.lexeme.lemmaRoot := hroot.trans hlemma.symm
    exact ⟨results, hparse, a, ha, hwhole, (progressive_of_mem_parse.1 _ _ _ _ _
      ofDictionary_aramak hparse a ha hpos hdrops hregular).2 hwhole⟩

end Analyzer

end TurkishMorphology
