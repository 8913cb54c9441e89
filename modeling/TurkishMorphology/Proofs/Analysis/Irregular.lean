import TurkishMorphology.Analysis.Irregular
import TurkishMorphology.Proofs.Analysis.FixedPath
import TurkishMorphology.Proofs.Grammar.Silence
import TurkishMorphology.Proofs.Grammar.Turkish
/-!
# The fixed paths of Turkish

The grammar has all parts that the drafts name, so the paths can be made whatever roots an index
has. Each path has a step, and silent steps lower the depth on a path as they do along the grammar,
although some paths take suffixes that no edge of the grammar has.

## Main definitions

- `PathStep.lowersDepth` — whether the silent steps of a draft lower the depth
- `Irregular.trailsPass` — whether the steps of all drafts pass a test

## Main statements

- `FixedPaths.exists_turkish_eq_ok` — the paths can be made
- `FixedPaths.IsPathOf.exists_draft_of_trailsPass` — what holds of drafts holds of paths
- `FixedPaths.IsPathOf.steps_ne_nil` — no path is the root alone
- `FixedPaths.IsPathOf.silentDepth_lt` — silent steps of paths
-/

namespace TurkishMorphology

/-- Whether each silent step of a path from a state lowers the silent depth. -/
def PathStep.lowersDepth (g : Grammar) (bound : Nat) : StateId → List PathStep → Bool
  | _, [] => true
  | source, s :: rest =>
    match s.resolve g with
    | .ok (r, target) =>
      (r.text.hasAlphanumeric || g.silentDepth bound target < g.silentDepth bound source)
        && lowersDepth g bound target rest
    | .error _ => false

theorem PathStep.exists_resolve_of_lowersDepth {g : Grammar} {bound : Nat} {source : StateId}
    {steps : List PathStep} (h : lowersDepth g bound source steps = true) :
    ∀ s ∈ steps, ∃ p, s.resolve g = .ok p := by
  induction steps generalizing source with
  | nil => nofun
  | cons s rest ih =>
    unfold lowersDepth at h
    split at h
    · next r target hs =>
      rw [Bool.and_eq_true] at h
      exact List.forall_mem_cons.mpr ⟨⟨_, hs⟩, ih h.2⟩
    · cases h

namespace FixedPaths

variable {g : Grammar} {drafts : List PathDraft} {steps : List PathStep} {a b : Analysis}
  {bound : Nat}

theorem exists_follow_eq_ok (a : Analysis) (h : ∀ s ∈ steps, ∃ p, s.resolve g = .ok p) :
    ∃ b, follow g a steps = .ok b := by
  induction steps generalizing a with
  | nil => exact ⟨a, rfl⟩
  | cons s rest ih =>
    obtain ⟨⟨r, target⟩, hs⟩ := h s (List.mem_cons_self ..)
    obtain ⟨b, hb⟩ := ih (a.extend g r target) fun t ht => h t (List.mem_cons_of_mem _ ht)
    exact ⟨b, Except.bind_eq_ok_iff.mpr ⟨_, hs, hb⟩⟩

/-- Paths can be made for the roots of every index if the grammar has what the drafts name. -/
theorem exists_build_eq_ok (hroots : ∀ root, ∃ s, g.rootState root = .ok s)
    (hdrafts : ∀ d ∈ drafts, ∀ steps ∈ d.paths, ∀ s ∈ steps, ∃ p, s.resolve g = .ok p)
    (index : RootIndex) : ∃ p, build g index drafts = .ok p := by
  refine Except.exists_foldlM_eq_ok _ fun d hd p => Except.exists_foldlM_eq_ok p fun root _ q => ?_
  obtain ⟨state, hstate⟩ := hroots root
  obtain ⟨paths, hpaths⟩ : ∃ paths, d.paths.mapM (path g root state) = .ok paths :=
    Except.exists_mapM_eq_ok fun steps hsteps =>
      exists_follow_eq_ok (Analysis.begin root state []) (hdrafts d hd steps hsteps)
  exact ⟨_, Except.bind_eq_ok_iff.mpr ⟨state, hstate, Except.bind_eq_ok_iff.mpr
    ⟨paths, hpaths, rfl⟩⟩⟩

theorem length_steps_of_follow (h : follow g a steps = .ok b) :
    b.steps.length = a.steps.length + steps.length := by
  induction steps generalizing a with
  | nil =>
    cases h
    rfl
  | cons s rest ih =>
    obtain ⟨⟨r, target⟩, -, h⟩ := Except.bind_eq_ok_iff.mp h
    rw [ih h, Analysis.steps_extend, List.length_append, List.length_singleton, List.length_cons]
    omega

theorem silentDepth_lt_of_follow (h : follow g a steps = .ok b)
    (hlowers : PathStep.lowersDepth g bound a.state steps = true)
    (ha : ∀ s ∈ a.steps, s.isSilent = true →
      g.silentDepth bound s.target < g.silentDepth bound s.source) :
    ∀ s ∈ b.steps, s.isSilent = true →
      g.silentDepth bound s.target < g.silentDepth bound s.source := by
  induction steps generalizing a with
  | nil =>
    cases h
    exact ha
  | cons s rest ih =>
    obtain ⟨⟨r, target⟩, hs, h⟩ := Except.bind_eq_ok_iff.mp h
    simp only [PathStep.lowersDepth, hs, Bool.and_eq_true, Bool.or_eq_true, decide_eq_true_eq]
      at hlowers
    obtain ⟨hstep, hrest⟩ := hlowers
    refine ih h hrest fun t ht hsilent => ?_
    rcases List.mem_append.mp ht with ht | ht
    · exact ha t ht hsilent
    · obtain rfl := List.mem_singleton.mp ht
      have htext : r.text.hasAlphanumeric = false := by simpa [Step.isSilent] using hsilent
      simpa [htext] using hstep

end FixedPaths

namespace Irregular

theorem ne_nil : ∀ d ∈ drafts, ∀ steps ∈ d.paths, steps ≠ [] := by decide

/-- No draft is about nouns, so the part of speech of a draft decides where its paths begin. -/
theorem lowersDepth : ∀ d ∈ drafts, d.pos ≠ .noun ∧
    ∃ state, Turkish.grammar.rootStateOf d.pos = .ok state ∧ ∀ steps ∈ d.paths,
      PathStep.lowersDepth Turkish.grammar 9 state steps = true := by
  have hall : ∀ d ∈ drafts, d.pos ≠ .noun ∧
      (Turkish.grammar.rootStateOf d.pos).toOption.any (fun state =>
        d.paths.all (PathStep.lowersDepth Turkish.grammar 9 state)) = true := by decide +kernel
  intro d hd
  obtain ⟨hpos, hany⟩ := hall d hd
  obtain ⟨state, hstate, hpaths⟩ := (Option.any_eq_true ..).mp hany
  exact ⟨hpos, state, Except.toOption_eq_some_iff.mp hstate, List.all_eq_true.mp hpaths⟩

theorem exists_resolve_eq_ok : ∀ d ∈ drafts, ∀ steps ∈ d.paths, ∀ s ∈ steps,
    ∃ p, s.resolve Turkish.grammar = .ok p := by
  intro d hd steps hsteps
  obtain ⟨-, state, -, hlowers⟩ := lowersDepth d hd
  exact PathStep.exists_resolve_of_lowersDepth (hlowers steps hsteps)

/-- Whether the steps of all paths, taken from where roots of the part of speech begin, pass a
    test. -/
def trailsPass (test : PathDraft → List Step → Bool) : Bool :=
  drafts.all fun d => (Turkish.grammar.rootStateOf d.pos).toOption.any fun state =>
    d.paths.all fun steps => (PathStep.trail Turkish.grammar state steps).toOption.any (test d)

theorem exists_trail_of_trailsPass {test : PathDraft → List Step → Bool}
    (h : trailsPass test = true) {d : PathDraft} (hd : d ∈ drafts) {state : StateId}
    (hstate : Turkish.grammar.rootStateOf d.pos = .ok state) {steps : List PathStep}
    (hsteps : steps ∈ d.paths) :
    ∃ new, PathStep.trail Turkish.grammar state steps = .ok new ∧ test d new = true := by
  have hpaths := List.all_eq_true.mp h d hd
  rw [hstate] at hpaths
  obtain ⟨new, hnew, htest⟩ := (Option.any_eq_true ..).mp (List.all_eq_true.mp hpaths steps hsteps)
  exact ⟨new, Except.toOption_eq_some_iff.mp hnew, htest⟩

end Irregular

namespace FixedPaths

theorem exists_turkish_eq_ok (index : RootIndex) : ∃ p, turkish Turkish.grammar index = .ok p := by
  refine exists_build_eq_ok (fun root => ?_) Irregular.exists_resolve_eq_ok index
  obtain ⟨s, -, hs⟩ := Turkish.exists_rootState root
  exact ⟨s, hs⟩

variable {index : RootIndex} {root : Root} {path : Analysis}

theorem IsPathOf.steps_ne_nil (h : IsPathOf Turkish.grammar index Irregular.drafts root path) :
    path.steps ≠ [] := by
  obtain ⟨d, hd, -, state, -, steps, hsteps, hpath⟩ := h.made
  rw [← List.length_pos_iff, length_steps_of_follow hpath]
  have := List.length_pos_iff.mpr (Irregular.ne_nil d hd steps hsteps)
  omega

/-- A path comes from a draft and begins in the state of the draft's part of speech, which is that
    of the root. -/
theorem IsPathOf.exists_draft (h : IsPathOf Turkish.grammar index Irregular.drafts root path) :
    ∃ d ∈ Irregular.drafts, root ∈ index.get d.surface ∧ d.pos = root.lexeme.pos ∧
      ∃ state, Turkish.grammar.rootStateOf d.pos = .ok state ∧
        ∃ steps ∈ d.paths,
          follow Turkish.grammar (Analysis.begin root state []) steps = .ok path := by
  obtain ⟨d, hd, ⟨hroot, hconcerns⟩, state, hstate, steps, hsteps, hpath⟩ := h.made
  simp only [concerns, decide_eq_true_eq] at hconcerns
  obtain ⟨hpos, -⟩ := Irregular.lowersDepth d hd
  rw [Turkish.rootState_eq_rootStateOf (hconcerns.2 ▸ hpos), hconcerns.2] at hstate
  exact ⟨d, hd, hroot, hconcerns.2.symm, state, hstate, steps, hsteps, hpath⟩

/-- What the steps of all drafts pass, the steps of a path pass. -/
theorem IsPathOf.exists_draft_of_trailsPass {test : PathDraft → List Step → Bool}
    (h : IsPathOf Turkish.grammar index Irregular.drafts root path)
    (htest : Irregular.trailsPass test = true) :
    ∃ d ∈ Irregular.drafts, root ∈ index.get d.surface ∧ test d path.steps = true := by
  obtain ⟨d, hd, hroot, -, state, hstate, steps, hsteps, hpath⟩ := h.exists_draft
  obtain ⟨new, hnew, hpathsteps⟩ := exists_trail_of_follow hpath
  obtain ⟨new', hnew', htest⟩ := Irregular.exists_trail_of_trailsPass htest hd hstate hsteps
  have hsame : path.steps = new' := hpathsteps.trans (Except.ok.inj (hnew.symm.trans hnew'))
  exact ⟨d, hd, hroot, hsame ▸ htest⟩

theorem IsPathOf.pos_ne_noun (h : IsPathOf Turkish.grammar index Irregular.drafts root path) :
    root.lexeme.pos ≠ .noun := by
  obtain ⟨d, hd, -, hpos, -⟩ := h.exists_draft
  exact hpos ▸ (Irregular.lowersDepth d hd).1

/-- A silent step of a path lowers the silent depth. -/
theorem IsPathOf.silentDepth_lt (h : IsPathOf Turkish.grammar index Irregular.drafts root path) :
    ∀ s ∈ path.steps, s.isSilent = true →
      Turkish.grammar.silentDepth 9 s.target < Turkish.grammar.silentDepth 9 s.source := by
  obtain ⟨d, hd, -, -, state, hstate, steps, hsteps, hpath⟩ := h.exists_draft
  obtain ⟨-, state', hstate', hlowers⟩ := Irregular.lowersDepth d hd
  rw [hstate'] at hstate
  cases hstate
  exact silentDepth_lt_of_follow hpath (hlowers steps hsteps) fun s hs => by cases hs

end FixedPaths

end TurkishMorphology
