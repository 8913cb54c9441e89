import TurkishMorphology.Analysis.FixedPath
import TurkishMorphology.Proofs.Analysis.Trace
import TurkishMorphology.Proofs.Result
/-!
# What fixed paths are

No gate judges the steps of a fixed path, but a fixed path is still a trace: it begins with its
root in the state of the root, and each of its steps extends it. All paths of a root come from
drafts for its spelling, lemma root and part of speech.

## Main definitions

- `PathStep.trail` — the steps that a path stands for
- `FixedPaths.Concerned` — a draft is about a root of the index
- `FixedPaths.IsPathOf` — a path that a draft gives to a root
- `FixedPaths.draftPaths` — all paths that a draft gives to a root

## Main statements

- `FixedPaths.isPathOf_of_mem_get` — where the paths of a root come from
- `FixedPaths.exists_mem_get_of_has` — a root that has paths has one at least
- `FixedPaths.IsPathOf.isTrace` — paths are traces
- `FixedPaths.get_build` — all paths of a root
-/

namespace TurkishMorphology

/-- A step of a path asks for a vowel only if it is voiced. -/
theorem PathStep.awaits_of_resolve {g : Grammar} {s : PathStep} {r : Realization}
    {target : StateId} (h : s.resolve g = .ok (r, target)) (hs : s.voiced = false) :
    r.awaits = none := by
  obtain ⟨suffix, -, h⟩ := Except.bind_eq_ok_iff.mp h
  obtain ⟨form, -, h⟩ := Except.bind_eq_ok_iff.mp h
  obtain ⟨target', -, h⟩ := Except.bind_eq_ok_iff.mp h
  rw [hs] at h
  cases h
  rfl

/-- The steps that a draft stands for, from a state on. -/
def PathStep.trail (g : Grammar) : StateId → List PathStep → Except GrammarError (List Step)
  | _, [] => .ok []
  | source, s :: rest => do
    let (r, target) ← s.resolve g
    let later ← trail g target rest
    return ⟨source, r, target, (g.state source).isDerivational⟩ :: later

namespace FixedPaths

variable {g : Grammar} {index : RootIndex} {drafts : List PathDraft} {p q : FixedPaths}
  {root : Root} {a b path : Analysis}

/-- The draft is about a root of the index. -/
def Concerned (index : RootIndex) (root : Root) (d : PathDraft) : Prop :=
  root ∈ index.get d.surface ∧ concerns d root = true

/-- The path is what some draft about the root gives to it. -/
structure IsPathOf (g : Grammar) (index : RootIndex) (drafts : List PathDraft) (root : Root)
    (path : Analysis) : Prop where
  made : ∃ d ∈ drafts, Concerned index root d ∧ ∃ state, g.rootState root = .ok state ∧
    ∃ steps ∈ d.paths, FixedPaths.path g root state steps = .ok path

/-- Every entry has paths, all of which drafts give to its root. -/
def MadeFrom (g : Grammar) (index : RootIndex) (drafts : List PathDraft) (p : FixedPaths) : Prop :=
  ∀ e ∈ p.entries, e.2 ≠ [] ∧ ∀ path ∈ e.2, IsPathOf g index drafts e.1 path

/-- What holds of the beginning of a path and survives each step of its draft holds of the path. -/
theorem follow_induction {steps : List PathStep} {motive : Analysis → Prop}
    (h : follow g a steps = .ok b) (start : motive a)
    (step : ∀ s ∈ steps, ∀ a r target, s.resolve g = .ok (r, target) → motive a →
      motive (a.extend g r target)) : motive b := by
  induction steps generalizing a with
  | nil =>
    cases h
    exact start
  | cons s rest ih =>
    obtain ⟨⟨r, target⟩, hr, h⟩ := Except.bind_eq_ok_iff.mp h
    have hnext := step s (List.mem_cons_self ..) a r target hr start
    exact ih h hnext fun t ht => step t (List.mem_cons_of_mem _ ht)

/-- Following a path adds the steps that it stands for. -/
theorem exists_trail_of_follow {steps : List PathStep} (h : follow g a steps = .ok b) :
    ∃ new, PathStep.trail g a.state steps = .ok new ∧ b.steps = a.steps ++ new := by
  induction steps generalizing a with
  | nil =>
    cases h
    exact ⟨[], rfl, (List.append_nil _).symm⟩
  | cons s rest ih =>
    obtain ⟨⟨r, target⟩, hs, h⟩ := Except.bind_eq_ok_iff.mp h
    obtain ⟨new, hnew, hsteps⟩ := ih h
    refine ⟨a.nextStep g r target :: new, ?_, ?_⟩
    · exact Except.bind_eq_ok_iff.mpr ⟨_, hs, Except.bind_eq_ok_iff.mpr ⟨new, hnew, rfl⟩⟩
    · rw [hsteps, Analysis.steps_extend, List.append_assoc, List.singleton_append]

namespace IsPathOf

theorem root_eq (h : IsPathOf g index drafts root path) : path.root = root := by
  obtain ⟨d, -, -, state, -, steps, -, hpath⟩ := h.made
  exact follow_induction (motive := fun a => a.root = root) hpath rfl
    fun _ _ _ _ _ _ ha => ha

theorem rootState_eq (h : IsPathOf g index drafts root path) :
    g.rootState root = .ok path.rootState := by
  obtain ⟨d, -, -, state, hstate, steps, -, hpath⟩ := h.made
  have hsame : path.rootState = state :=
    follow_induction (motive := fun a => a.rootState = state) hpath rfl fun _ _ _ _ _ _ ha => ha
  rw [hsame, hstate]

theorem isTrace (h : IsPathOf g index drafts root path) : path.IsTrace g := by
  obtain ⟨d, -, -, state, -, steps, -, hpath⟩ := h.made
  exact follow_induction hpath (Analysis.isTrace_begin root state [])
    fun _ _ _ _ _ _ ha => ha.extend

end IsPathOf

theorem mem_entries_of_lookup_eq_some {entries : List (Root × List Analysis)}
    {paths : List Analysis} (h : entries.lookup root = some paths) : (root, paths) ∈ entries := by
  obtain ⟨before, after, rfl, -⟩ := List.lookup_eq_some_iff.mp h
  simp

theorem MadeFrom.add (hp : MadeFrom g index drafts p) {paths : List Analysis}
    (hpaths : ∀ path ∈ paths, IsPathOf g index drafts root path) :
    MadeFrom g index drafts (p.add root paths) := by
  unfold FixedPaths.add
  split
  · exact hp
  · next hne =>
    have hne : paths ≠ [] := by simpa using hne
    split
    · intro e he
      obtain ⟨⟨s, old⟩, hold, rfl⟩ := List.mem_map.mp he
      obtain ⟨holdne, holdpaths⟩ := hp _ hold
      by_cases hs : s = root
      · subst hs
        simp only [if_true]
        refine ⟨by simp [hne], fun path hpath => ?_⟩
        rcases List.mem_append.mp hpath with hpath | hpath
        · exact holdpaths path hpath
        · exact hpaths path hpath
      · simp only [hs, if_false]
        exact ⟨holdne, holdpaths⟩
    · intro e he
      rcases List.mem_append.mp he with he | he
      · exact hp e he
      · obtain rfl := List.mem_singleton.mp he
        exact ⟨hne, hpaths⟩

/-- Collecting the paths of all drafts gives roots only paths of drafts about them. -/
theorem madeFrom_build (h : build g index drafts = .ok p) : MadeFrom g index drafts p := by
  -- The outer induction is on the drafts, the inner one on the roots that a draft is about.
  refine Except.foldlM_induction h (fun e he => by cases he) ?_
  intro d hd p q hp hq
  refine Except.foldlM_induction hq hp ?_
  intro root hroot p q hp hq
  obtain ⟨hindex, hconcerns⟩ := List.mem_filter.mp hroot
  obtain ⟨state, hstate, hq⟩ := Except.bind_eq_ok_iff.mp hq
  obtain ⟨paths, hpaths, hq⟩ := Except.bind_eq_ok_iff.mp hq
  cases hq
  refine hp.add fun path hpath => ?_
  obtain ⟨steps, hsteps, hpath⟩ := (Except.mem_mapM_iff hpaths).mp hpath
  exact ⟨d, hd, ⟨hindex, hconcerns⟩, state, hstate, steps, hsteps, hpath⟩

theorem isPathOf_of_mem_get (h : build g index drafts = .ok p) (hpath : path ∈ p.get root) :
    IsPathOf g index drafts root path := by
  unfold get at hpath
  cases hlookup : p.entries.lookup root with
  | none => simp [hlookup] at hpath
  | some paths =>
    rw [hlookup, Option.getD_some] at hpath
    exact (madeFrom_build h _ (mem_entries_of_lookup_eq_some hlookup)).2 path hpath

theorem exists_mem_get_of_has (h : build g index drafts = .ok p) (hroot : p.has root = true) :
    ∃ path, path ∈ p.get root := by
  obtain ⟨paths, hlookup⟩ := Option.isSome_iff_exists.mp hroot
  have hne := (madeFrom_build h _ (mem_entries_of_lookup_eq_some hlookup)).1
  obtain ⟨path, hpath⟩ := List.exists_mem_of_ne_nil _ hne
  exact ⟨path, by rwa [get, hlookup, Option.getD_some]⟩

theorem lookup_map {β γ : Type} (entries : List (Root × β)) (f : Root → β → γ) (root : Root) :
    (entries.map fun e => (e.1, f e.1 e.2)).lookup root = (entries.lookup root).map (f root) := by
  induction entries with
  | nil => rfl
  | cons e rest ih =>
    rw [List.map_cons, List.lookup_cons, List.lookup_cons]
    split
    · next heq => rw [Option.map_some, eq_of_beq heq]
    · exact ih

/-- Paths are added after those that a root has. -/
theorem get_add (p : FixedPaths) (r root : Root) (paths : List Analysis) :
    (p.add r paths).get root = p.get root ++ if root = r then paths else [] := by
  unfold add
  split
  · next hnone => simp [List.isEmpty_iff.mp hnone]
  · split
    · next hhas =>
      have hentries : (p.entries.map fun e => if e.1 = r then (e.1, e.2 ++ paths) else e) =
          p.entries.map fun e => (e.1, if e.1 = r then e.2 ++ paths else e.2) :=
        List.map_congr_left fun e _ => by split <;> rfl
      change ((p.entries.map fun e => if e.1 = r then (e.1, e.2 ++ paths) else e).lookup
        root).getD [] = _
      rw [get, hentries, lookup_map p.entries (fun s old => if s = r then old ++ paths else old)]
      by_cases heq : root = r
      · subst heq
        obtain ⟨old, hold⟩ := Option.isSome_iff_exists.mp hhas
        simp [hold]
      · simp [heq]
    · next hhas =>
      rw [get, get, List.lookup_append]
      by_cases heq : root = r
      · subst heq
        have hnone : p.entries.lookup root = none := by
          rwa [has, Option.not_isSome_iff_eq_none] at hhas
        simp [hnone]
      · have hother : (root == r) = false := by simpa using heq
        simp [List.lookup_cons, hother, heq]

/-- The paths that a draft gives to a root that it is about. -/
def draftPaths (g : Grammar) (d : PathDraft) (root : Root) : List Analysis :=
  ((g.rootState root >>= fun state => d.paths.mapM (FixedPaths.path g root state)).toOption).getD []

theorem get_addRoot {d : PathDraft} {r : Root} (h : addRoot g d p r = .ok q) (root : Root) :
    q.get root = p.get root ++ if root = r then draftPaths g d root else [] := by
  obtain ⟨state, hstate, h⟩ := Except.bind_eq_ok_iff.mp h
  obtain ⟨paths, hpaths, h⟩ := Except.bind_eq_ok_iff.mp h
  cases h
  rw [get_add]
  split
  · next heq =>
    subst heq
    have hdraft : (g.rootState root >>= fun state =>
        d.paths.mapM (FixedPaths.path g root state)) = .ok paths :=
      Except.bind_eq_ok_iff.mpr ⟨state, hstate, hpaths⟩
    rw [draftPaths, hdraft]
    rfl
  · rfl

theorem get_foldlM_addRoot {d : PathDraft} {roots : List Root} (hroots : roots.Nodup)
    (h : roots.foldlM (addRoot g d) p = .ok q) (root : Root) :
    q.get root = p.get root ++ if root ∈ roots then draftPaths g d root else [] := by
  induction roots generalizing p with
  | nil =>
    cases h
    simp
  | cons r rest ih =>
    rw [List.foldlM_cons] at h
    obtain ⟨p', hp', h⟩ := Except.bind_eq_ok_iff.mp h
    obtain ⟨hr, hrest⟩ := List.nodup_cons.mp hroots
    rw [ih hrest h, get_addRoot hp']
    by_cases heq : root = r
    · subst heq
      simp [hr]
    · simp [heq]

/-- The paths of a root are those that the drafts about it give to it, in the order of the drafts.
    What else the index holds is of no account. -/
theorem get_build (h : build g index drafts = .ok p) (hindex : ∀ s, (index.get s).Nodup)
    (root : Root) :
    p.get root = drafts.flatMap fun d =>
      if root ∈ index.get d.surface ∧ concerns d root = true then draftPaths g d root else [] := by
  have hfold : ∀ (ds : List PathDraft) (p q : FixedPaths), ds.foldlM (addDraft g index) p = .ok q →
      q.get root = p.get root ++ ds.flatMap fun d =>
        if root ∈ index.get d.surface ∧ concerns d root = true then draftPaths g d root
        else [] := by
    intro ds
    induction ds with
    | nil =>
      intro p q h
      cases h
      simp
    | cons d rest ih =>
      intro p q h
      rw [List.foldlM_cons] at h
      obtain ⟨p', hp', h⟩ := Except.bind_eq_ok_iff.mp h
      have hroots : ((index.get d.surface).filter (concerns d)).Nodup := (hindex _).filter _
      rw [ih p' q h, get_foldlM_addRoot hroots hp', List.flatMap_cons, List.append_assoc]
      simp only [List.mem_filter]
  have hget := hfold drafts {} p h
  rwa [show ({} : FixedPaths).get root = [] from rfl, List.nil_append] at hget

theorem has_iff_get_ne_nil (h : build g index drafts = .ok p) :
    p.has root = true ↔ p.get root ≠ [] := by
  constructor
  · intro hroot
    obtain ⟨path, hpath⟩ := exists_mem_get_of_has h hroot
    exact List.ne_nil_of_mem hpath
  · intro hne
    rw [has, Option.isSome_iff_ne_none]
    intro hnone
    rw [get, hnone] at hne
    exact hne rfl

end FixedPaths

end TurkishMorphology
