import TurkishMorphology.Proofs.Analyzer.Cells
/-!
# The search dies out

A step of the search either reads a letter or lowers the silent depth of the state, which is at most
nine. So the weight of an analysis, ten for each character still to be read and one for each silent
step that may come before, gets smaller with every step. A word can have no more generations than
ten for each of its characters.

## Main definitions

- `Analysis.weight` — what every step lowers

## Main statements

- `Analysis.weight_lt_of_takes` — one step
- `Analyzer.add_le_of_mem_generationAt` — the steps of a whole generation
- `Analyzer.IsTurkish.length_le_of_silent` — silent steps in a row
- `Analyzer.parse_ends` — no word needs more generations than ten for each character
-/

namespace TurkishMorphology

/-- Ten for each character still to be read, and the silent steps that may come before the next of
    them is. -/
def Analysis.weight (g : Grammar) (a : Analysis) : Nat :=
  10 * a.remaining.length + g.silentDepth 9 a.state

theorem Analysis.weight_lt_of_takes {g : Grammar} {a b : Analysis} (hg : g.Quietens 9)
    (h : a.Takes g b) : b.weight g < a.weight g := by
  obtain ⟨r, target, hfollows, hallows, rfl⟩ := h
  have hread := hallows.input.length_le
  simp only [weight, remaining_extend, state_extend, List.length_drop]
  cases hsilent : (a.nextStep g r target).isSilent with
  | true =>
    have hdepth : g.silentDepth 9 target < g.silentDepth 9 a.state :=
      hg.silentDepth_lt hfollows hsilent
    omega
  | false =>
    have hletters : r.text.hasAlphanumeric = true := by
      simpa [Step.isSilent, nextStep] using hsilent
    have hpos := List.length_pos_iff.mpr (Word.ne_nil_of_hasAlphanumeric hletters)
    have hdepth := g.silentDepth_le 9 target
    omega

/-- Silent steps in a row that each lower the depth are no more than the depth they start from. -/
theorem Step.Path.length_add_silentDepth_le {g : Grammar} {bound : Nat} {source target : StateId}
    {steps : List Step} (hpath : Step.Path source steps target)
    (h : ∀ s ∈ steps, g.silentDepth bound s.target < g.silentDepth bound s.source) :
    steps.length + g.silentDepth bound target ≤ g.silentDepth bound source := by
  induction steps generalizing source with
  | nil =>
    obtain rfl : source = target := hpath
    simp
  | cons s rest ih =>
    obtain ⟨rfl, hrest⟩ := hpath
    have hstep := h s (List.mem_cons_self ..)
    have hlater := ih hrest fun t ht => h t (List.mem_cons_of_mem _ ht)
    rw [List.length_cons]
    omega

namespace Analyzer

variable {z : Analyzer} {word : Word} {a b : Analysis} {index : RootIndex} {options : Options}
  {lexicon : LexiconOptions} {lexemes : List Lexeme}

/-- Where every step of the search lowers a measure, each generation has lowered it once more. -/
theorem add_le_of_mem_generationAt {measure : Analysis → Nat}
    (hlowers : ∀ a b, z.Leads a b → measure b < measure a) {as : List Analysis} {n : Nat}
    (ha : a ∈ z.generationAt as n) : ∃ start ∈ as, measure a + n ≤ measure start := by
  induction n generalizing a with
  | zero => exact ⟨a, ha, Nat.le_refl _⟩
  | succ n ih =>
    rw [generationAt_succ', nextGeneration, List.mem_flatMap] at ha
    obtain ⟨b, hb, hba⟩ := ha
    obtain ⟨start, hstart, hle⟩ := ih (List.mem_of_mem_filter hb)
    have hlt := hlowers b a hba
    exact ⟨start, hstart, by omega⟩

namespace IsTurkish

theorem quietens (h : z.IsTurkish index options) : z.grammar.Quietens 9 :=
  h.grammar ▸ Turkish.quietens

/-- At least one character of the word has been read by the root. -/
theorem weight_lt_of_reaches (h : z.IsTurkish index options)
    (hindex : RootIndex.ofLexemes lexicon lexemes = .ok index) (hb : z.Reaches word b) :
    b.weight z.grammar < 10 * word.length := by
  have hword := congrArg List.length (h.grows_of_reaches (h.spells hindex) hb).reads.word
  have hread := List.length_pos_iff.mpr (h.isPlaced_of_reaches hindex hb).surface
  have hdepth := z.grammar.silentDepth_le 9 b.state
  rw [List.length_append] at hword
  unfold Analysis.weight
  omega

theorem unfinished_generationAt_eq_nil (h : z.IsTurkish index options)
    (hindex : RootIndex.ofLexemes lexicon lexemes = .ok index) {starts : List Analysis}
    (hstarts : z.firstGeneration word = .ok starts) {n : Nat} (hn : 10 * word.length ≤ n) :
    z.unfinished (z.generationAt starts n) = [] := by
  rw [List.eq_nil_iff_forall_not_mem]
  intro a ha
  have hlowers : ∀ a b, z.Leads a b → b.weight z.grammar < a.weight z.grammar :=
    fun a b hab => Analysis.weight_lt_of_takes h.quietens (h.takes_of_leads hab)
  obtain ⟨start, hstart, hle⟩ := add_le_of_mem_generationAt hlowers (List.mem_of_mem_filter ha)
  have hlt := h.weight_lt_of_reaches hindex ⟨starts, hstarts, start, hstart, .refl⟩
  omega

/-- Each silent step of what the search comes across lowers the silent depth, those of fixed paths
    included. -/
theorem silentDepth_lt_of_reaches (h : z.IsTurkish index options) (hb : z.Reaches word b) :
    ∀ s ∈ b.steps, s.isSilent = true →
      z.grammar.silentDepth 9 s.target < z.grammar.silentDepth 9 s.source := by
  obtain ⟨beginning, root, -, a, hseed, hab⟩ := h.derives_of_reaches hb
  clear hb
  induction hab with
  | refl =>
    cases hseed with
    | path _ hmem hrebase =>
      obtain ⟨-, rfl⟩ := Analysis.rebase_eq_some_iff.mp hrebase
      have hpath := h.isPathOf hmem
      rw [h.grammar] at hpath ⊢
      exact hpath.silentDepth_lt
    | root _ _ => exact fun s hs => by cases hs
  | @tail b c _ hbc ih =>
    obtain ⟨r, target, hfollows, -, rfl⟩ := hbc
    intro s hs hsilent
    rcases List.mem_append.mp hs with hs | hs
    · exact ih s hs hsilent
    · obtain rfl := List.mem_singleton.mp hs
      exact h.quietens.silentDepth_lt hfollows hsilent

theorem length_le_of_silent (h : z.IsTurkish index options)
    (hindex : RootIndex.ofLexemes lexicon lexemes = .ok index) (hb : z.Reaches word b)
    {before silent after : List Step} (hsteps : b.steps = before ++ silent ++ after)
    (hsilent : ∀ s ∈ silent, s.isSilent = true) : silent.length ≤ 9 := by
  have hpath := (h.grows_of_reaches (h.spells hindex) hb).reads.trace.path
  rw [hsteps, Step.path_append] at hpath
  obtain ⟨target, hpath, -⟩ := hpath
  obtain ⟨source, -, hpath⟩ := Step.path_append.mp hpath
  have hle := hpath.length_add_silentDepth_le fun s hs => by
    refine h.silentDepth_lt_of_reaches hb s ?_ (hsilent s hs)
    rw [hsteps]
    exact List.mem_append_left _ (List.mem_append_right _ hs)
  have hdepth := z.grammar.silentDepth_le 9 source
  omega

end IsTurkish

/-- No word is given up if ten generations are allowed for each of its characters, since no analysis
    has more than nine silent steps in a row. -/
theorem parse_ends {text : Word} (hz : ofDictionary lexicon options text = .ok z)
    (hlimit : 10 * word.length ≤ options.maxGenerations) :
    (∀ e, z.parse word = .error e → ∀ count generations,
      e.fault ≠ .generationsExceeded count generations) ∧
    ∀ b, z.Reaches word b → ∀ before silent after, b.steps = before ++ silent ++ after →
      (∀ s ∈ silent, s.isSilent = true) → silent.length ≤ 9 := by
  obtain ⟨lexemes, -, index, hindex, hturkish⟩ := ofDictionary_eq_ok_iff.mp hz
  constructor
  · intro e he count generations hfault
    rcases hturkish.parse_eq_error hindex he with
      ⟨-, suffix, refusal, hother⟩ | ⟨starts, hstarts, hlive, -⟩
    · rw [hother] at hfault
      cases hfault
    · exact hlive (hturkish.unfinished_generationAt_eq_nil hindex hstarts hlimit)
  · intro b hb before silent after hsteps hsilent
    exact hturkish.length_le_of_silent hindex hb hsteps hsilent

/-- The analyser over a dictionary with the adjective `güzel`, limited to sixty generations. -/
def guzelInSixty : Analyzer :=
  evaluate {} { maxGenerations := 60 } "güzel [P:Adj]".toList (by decide +kernel)

/-- Sixty generations suffice for a word of six letters, here an adjective that becomes a noun by
    silent steps before it takes a suffix. -/
theorem parse_ends_guzeli :
    ofDictionary {} { maxGenerations := 60 } "güzel [P:Adj]".toList = .ok guzelInSixty ∧
      (∃ results, guzelInSixty.parse "güzeli".toList = .ok results ∧ results.length = 2) ∧
      (∀ e, guzelInSixty.parse "güzeli".toList = .error e → ∀ count generations,
        e.fault ≠ .generationsExceeded count generations) ∧
      ∀ b, guzelInSixty.Reaches "güzeli".toList b → ∀ before silent after,
        b.steps = before ++ silent ++ after → (∀ s ∈ silent, s.isSilent = true) →
          silent.length ≤ 9 := by
  have hz : ofDictionary {} { maxGenerations := 60 } "güzel [P:Adj]".toList = .ok guzelInSixty :=
    ofDictionary_evaluate _
  obtain ⟨results, hparse, hlength⟩ := exists_of_finds hz "güzeli".toList
    (fun results => results.length = 2) (by decide +kernel)
  have hlimit : 10 * "güzeli".toList.length ≤ 60 := by decide
  obtain ⟨hends, hsilent⟩ := parse_ends hz hlimit
  exact ⟨hz, ⟨results, hparse, by simpa using hlength⟩, hends, hsilent⟩

end Analyzer

end TurkishMorphology
