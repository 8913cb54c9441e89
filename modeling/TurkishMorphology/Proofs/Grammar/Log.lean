import TurkishMorphology.Grammar.Making
import TurkishMorphology.Proofs.Grammar.Numbering
import TurkishMorphology.Proofs.Grammar.Spelling
import TurkishMorphology.Proofs.Grammar.Turkish
import TurkishMorphology.Proofs.Lexicon.RootIndex
/-!
# The log of a grammar

A grammar is made by calls that use numbers given out before. What each call adds is entered in a
log, with the number that it got. The collections of the grammar follow from the log, and a call
that fails changes none of them.

## Main definitions

- `Making.Log`, `Making.Call` — what was added, and what adds it
- `Making.Call.perform` — a call, and its entry in the log
- `Making.Call.IsRefused` — why a call fails
- `Making.IsMade` — a grammar made by calls, with their log
- `Making.Log.IsKeptBy` — how the collections of a grammar follow from a log

## Main statements

- `Making.Log.IsKeptBy.success`, `Making.Log.IsKnown.success` — what a call that succeeds keeps
- `Making.Log.IsKeptBy.run_eq_error_iff` — when a call fails, and what it leaves
- `Making.IsMade.isKeptBy` — what holds after any calls
- `Making.IsMade.isClosed` — no suffix leads out of a made grammar
-/

namespace TurkishMorphology

/-- What a form is asked to be, with its template as it is written. -/
structure FormDraft where
  suffix : SuffixId
  template : Word
  guards : Guards
deriving DecidableEq

def Form.draft (f : Form) : FormDraft := ⟨f.suffix, f.template.text, f.guards⟩

/-- A suffix without its forms. -/
def Suffix.bare (s : Suffix) : Suffix := { s with forms := [] }

-- ════════════════════════════════════════════════════════════════════════
-- Calls
-- ════════════════════════════════════════════════════════════════════════

namespace Making

/-- What was added, each with the number that it got, in the order of the calls. -/
structure Log where
  states : List (State × StateId) := []
  groups : List (String × GroupId) := []
  suffixes : List (Suffix × SuffixId) := []
  forms : List (FormDraft × FormId) := []
  edges : List Edge := []
  rootStates : List ((PrimaryPos × Option SecondaryPos) × StateId) := []

/-- A call that changes a grammar. -/
inductive Call where
  | addState (s : State)
  | group (name : String)
  | addSuffix (name : String) (printed : Option String) (group : Option GroupId) (repeats : Bool)
  | addForm (draft : FormDraft)
  | addEdge (e : Edge)
  | setRootState (pos : PrimaryPos) (secondary : Option SecondaryPos) (s : StateId)

namespace Log

variable (log : Log)

def stateIds : List StateId := log.states.map Prod.snd

def groupIds : List GroupId := log.groups.map Prod.snd

def suffixIds : List SuffixId := log.suffixes.map Prod.snd

def formIds : List FormId := log.forms.map Prod.snd

end Log

namespace Call

/-- The numbers in the call were given out before. -/
def UsesKnown (log : Log) : Call → Prop
  | .addState _ | .group _ => True
  | .addSuffix _ _ joined _ => ∀ id ∈ joined, id ∈ log.groupIds
  | .addForm draft => draft.suffix ∈ log.suffixIds
  | .addEdge e => e.source ∈ log.stateIds ∧ e.suffix ∈ log.suffixIds ∧ e.target ∈ log.stateIds
  | .setRootState _ _ s => s ∈ log.stateIds

instance (log : Log) (c : Call) : Decidable (c.UsesKnown log) :=
  match c with
  | .addState _ | .group _ => .isTrue trivial
  | .addSuffix _ _ joined _ => inferInstanceAs (Decidable (∀ id ∈ joined, id ∈ log.groupIds))
  | .addForm draft => inferInstanceAs (Decidable (draft.suffix ∈ log.suffixIds))
  | .addEdge e => inferInstanceAs (Decidable (e.source ∈ log.stateIds ∧
      e.suffix ∈ log.suffixIds ∧ e.target ∈ log.stateIds))
  | .setRootState _ _ s => inferInstanceAs (Decidable (s ∈ log.stateIds))

/-- Makes the call, and enters what it gives in the log. -/
def perform (log : Log) : Call → Making Log
  | .addState s => do
    let id ← Making.addState s
    return { log with states := log.states ++ [(s, id)] }
  | .group name => do
    let id ← Making.group name
    return { log with groups := log.groups ++ [(name, id)] }
  | .addSuffix name printed joined repeats => do
    let id ← Making.addSuffix name printed joined repeats
    return { log with
      suffixes := log.suffixes ++ [({ name, printed, group := joined, repeats }, id)] }
  | .addForm draft => do
    let id ← Making.addForm draft.suffix draft.template draft.guards
    return { log with forms := log.forms ++ [(draft, id)] }
  | .addEdge e => do
    Making.addEdge e
    return { log with edges := log.edges ++ [e] }
  | .setRootState pos secondary s => do
    Making.setRootState pos secondary s
    return { log with rootStates := log.rootStates ++ [((pos, secondary), s)] }

/-- The reasons for which a call fails. -/
inductive IsRefused (log : Log) : Call → GrammarError → Prop
  | duplicateState {s : State} (h : ∃ p ∈ log.states, p.1.name = s.name) :
    IsRefused log (.addState s) (.duplicateState s.name)
  | duplicateSuffix {name : String} {printed : Option String} {group : Option GroupId}
    {repeats : Bool} (h : ∃ p ∈ log.suffixes, p.1.name = name) :
    IsRefused log (.addSuffix name printed group repeats) (.duplicateSuffix name)
  | invalidTemplate {draft : FormDraft} {fault : TemplateFault}
    (h : Template.compile draft.template = .error fault) :
    IsRefused log (.addForm draft) (.invalidTemplate draft.template fault)

end Call

/-- A grammar made from the empty one by calls, and the log of these. A call uses numbers that were
    given out before. If it fails nothing is entered in the log, whatever grammar it leaves. -/
inductive IsMade : Log → Grammar → Prop
  | start : IsMade {} .empty
  | success {log log' : Log} {g g' : Grammar} {c : Call} (h : IsMade log g)
    (hknown : c.UsesKnown log) (hrun : (c.perform log).run g = .ok log' g') : IsMade log' g'
  | failure {log : Log} {g g' : Grammar} {c : Call} {e : GrammarError} (h : IsMade log g)
    (hknown : c.UsesKnown log) (hrun : (c.perform log).run g = .error e g') : IsMade log g'

-- ════════════════════════════════════════════════════════════════════════
-- What a log says of the collections
-- ════════════════════════════════════════════════════════════════════════

/-- How the collections of a grammar follow from the log. -/
structure Log.IsKeptBy (log : Log) (g : Grammar) : Prop where
  states : IsNumbered StateId.mk id log.states g.states
  stateIndex : IsIndexed State.name log.states g.stateIndex
  groups : IsNumbered GroupId.mk id log.groups.eraseDups g.groups
  groupIndex : IsIndexed id log.groups g.groupIndex
  suffixes : IsNumbered SuffixId.mk Suffix.bare log.suffixes g.suffixes
  suffixIndex : IsIndexed Suffix.name log.suffixes g.suffixIndex
  forms : IsNumbered FormId.mk Form.draft log.forms g.forms
  templates : ∀ f ∈ g.forms, Template.compile f.template.text = .ok f.template
  /-- The forms of a suffix are those that were added to it. -/
  formsOf : ∀ id, (g.suffix id).forms =
    (log.forms.filter fun p => p.1.suffix = id).map Prod.snd
  exits : g.exits.size = g.states.size
  edgesFrom : ∀ id, g.edgesFrom id = log.edges.filter fun e => e.source = id
  rootStates : g.rootStates = log.rootStates.reverse

/-- The numbers in the log were given out. -/
structure Log.IsKnown (log : Log) : Prop where
  groups : ∀ s ∈ log.suffixes.map Prod.fst, ∀ id ∈ s.group, id ∈ log.groupIds
  suffixes : ∀ draft ∈ log.forms.map Prod.fst, draft.suffix ∈ log.suffixIds
  edges : ∀ e ∈ log.edges,
    e.source ∈ log.stateIds ∧ e.suffix ∈ log.suffixIds ∧ e.target ∈ log.stateIds
  rootStates : ∀ id ∈ log.rootStates.map Prod.snd, id ∈ log.stateIds

theorem Log.IsKeptBy.empty : Log.IsKeptBy {} .empty where
  states := rfl
  stateIndex := .empty
  groups := rfl
  groupIndex := .empty
  suffixes := rfl
  suffixIndex := .empty
  forms := rfl
  templates _ hf := absurd hf (Array.not_mem_empty _)
  formsOf _ := rfl
  exits := rfl
  edgesFrom _ := rfl
  rootStates := rfl

namespace Log.IsKeptBy

variable {log : Log} {g : Grammar}

theorem pushState (h : log.IsKeptBy g) {s : State} (hnew : g.stateIndex.lookup s.name = none) :
    Log.IsKeptBy { log with states := log.states ++ [(s, ⟨g.states.size⟩)] } (g.pushState s) :=
  { h with
    states := h.states.push s
    stateIndex := h.stateIndex.push hnew _
    exits := by simp [Grammar.pushState, h.exits]
    edgesFrom := fun id => (Grammar.edgesFrom_pushState g s id).trans (h.edgesFrom id) }

/-- A group that is there keeps its number, and one that is not gets the next. -/
theorem group (h : log.IsKeptBy g) (name : String) :
    Log.IsKeptBy { log with groups := log.groups ++ [(name, (g.group name).2)] }
      (g.group name).1 := by
  cases hfound : g.groupIndex.lookup name with
  | some id =>
    have hold : (name, id) ∈ log.groups := by
      obtain ⟨_, hmem, rfl⟩ := (h.groupIndex name id).mp hfound
      exact hmem
    simp only [Grammar.group, hfound]
    refine { h with groups := ?_, groupIndex := fun n i => ?_ }
    · show IsNumbered _ _ (log.groups ++ [(name, id)]).eraseDups _
      rw [List.eraseDups_concat, if_pos hold]
      exact h.groups
    · have hsame (m : String) : (m, i) ∈ log.groups ++ [(name, id)] ↔ (m, i) ∈ log.groups := by
        grind
      simp only [hsame]
      exact h.groupIndex n i
  | none =>
    have hnew : (name, (⟨g.groups.size⟩ : GroupId)) ∉ log.groups := fun hmem =>
      h.groupIndex.lookup_eq_none_iff.mp hfound _ hmem rfl
    simp only [Grammar.group, hfound]
    refine { h with groups := ?_, groupIndex := h.groupIndex.push hfound _ }
    rw [List.eraseDups_concat, if_neg hnew]
    exact h.groups.push name

theorem pushSuffix (h : log.IsKeptBy g) {s : Suffix} (hforms : s.forms = [])
    (hnew : g.suffixIndex.lookup s.name = none) :
    Log.IsKeptBy { log with suffixes := log.suffixes ++ [(s, ⟨g.suffixes.size⟩)] }
      (g.pushSuffix s) :=
  { h with
    suffixes := by
      have hpush := h.suffixes.push s
      rwa [show s.bare = s by rw [Suffix.bare, ← hforms]] at hpush
    suffixIndex := h.suffixIndex.push hnew _
    formsOf := fun id => (Grammar.forms_suffix_pushSuffix hforms id).trans (h.formsOf id) }

theorem pushForm (h : log.IsKeptBy g) {f : Form} (hknown : f.suffix ∈ log.suffixIds)
    (hread : Template.compile f.template.text = .ok f.template) :
    Log.IsKeptBy { log with forms := log.forms ++ [(f.draft, ⟨g.forms.size⟩)] } (g.pushForm f) :=
  { h with
    suffixes := h.suffixes.modify _ fun _ => rfl
    forms := h.forms.push f
    templates := fun t ht => by
      obtain ht | rfl := Array.mem_push.mp ht
      · exact h.templates t ht
      · exact hread
    formsOf := fun id => by
      have hlt : f.suffix.index < g.suffixes.size := by
        obtain ⟨n, hn, heq⟩ := h.suffixes.mem_map_snd_iff.mp hknown
        rwa [← heq]
      rw [Grammar.forms_suffix_pushForm hlt, h.formsOf id, List.filter_append, List.map_append]
      by_cases heq : f.suffix = id <;> simp [Form.draft, heq] }

theorem addEdge (h : log.IsKeptBy g) {e : Edge} (hknown : e.source ∈ log.stateIds) :
    Log.IsKeptBy { log with edges := log.edges ++ [e] } (g.addEdge e) :=
  { h with
    exits := by simp [Grammar.addEdge, h.exits]
    edgesFrom := fun id => by
      have hlt : e.source.index < g.exits.size := by
        obtain ⟨n, hn, heq⟩ := h.states.mem_map_snd_iff.mp hknown
        rwa [h.exits, ← heq]
      rw [Grammar.edgesFrom_addEdge hlt, h.edgesFrom id, List.filter_append] }

theorem setRootState (h : log.IsKeptBy g) (pos : PrimaryPos) (secondary : Option SecondaryPos)
    (s : StateId) :
    Log.IsKeptBy { log with rootStates := log.rootStates ++ [((pos, secondary), s)] }
      (g.setRootState pos secondary s) :=
  { h with
    rootStates := by
      rw [Grammar.setRootState, h.rootStates, List.reverse_append]
      rfl }

end Log.IsKeptBy

-- ════════════════════════════════════════════════════════════════════════
-- What calls keep
-- ════════════════════════════════════════════════════════════════════════

variable {log log' : Log} {g g' : Grammar} {c : Call}

/-- A call that succeeds keeps the log. -/
theorem Log.IsKeptBy.success (h : log.IsKeptBy g) (hknown : c.UsesKnown log)
    (hrun : (c.perform log).run g = .ok log' g') : log'.IsKeptBy g' := by
  cases c with
  | addState s =>
    obtain ⟨id, hadd, rfl⟩ := run_bind_pure_eq_ok_iff.mp hrun
    rw [run_addState] at hadd
    split at hadd
    · cases hadd
    · next hnew =>
      cases hadd
      exact h.pushState (Option.not_isSome_iff_eq_none.mp hnew)
  | group name =>
    obtain ⟨id, hadd, rfl⟩ := run_bind_pure_eq_ok_iff.mp hrun
    rw [run_group] at hadd
    cases hadd
    exact h.group name
  | addSuffix name printed joined repeats =>
    obtain ⟨id, hadd, rfl⟩ := run_bind_pure_eq_ok_iff.mp hrun
    rw [run_addSuffix] at hadd
    split at hadd
    · cases hadd
    · next hnew =>
      cases hadd
      exact h.pushSuffix rfl (Option.not_isSome_iff_eq_none.mp hnew)
  | addForm draft =>
    obtain ⟨id, hadd, rfl⟩ := run_bind_pure_eq_ok_iff.mp hrun
    cases hcompile : Template.compile draft.template with
    | error fault =>
      rw [run_addForm_of_error _ _ hcompile] at hadd
      cases hadd
    | ok t =>
      rw [run_addForm_of_ok _ _ hcompile] at hadd
      cases hadd
      obtain ⟨suffix, template, guards⟩ := draft
      obtain rfl : t.text = template := (Template.spells_of_compile hcompile).1
      exact h.pushForm (f := ⟨suffix, t, guards⟩) hknown hcompile
  | addEdge e =>
    obtain ⟨_, hadd, rfl⟩ := run_bind_pure_eq_ok_iff.mp hrun
    rw [run_addEdge] at hadd
    cases hadd
    exact h.addEdge hknown.1
  | setRootState pos secondary s =>
    obtain ⟨_, hadd, rfl⟩ := run_bind_pure_eq_ok_iff.mp hrun
    rw [run_setRootState] at hadd
    cases hadd
    exact h.setRootState pos secondary s

theorem Log.IsKnown.success (h : log.IsKnown) (hknown : c.UsesKnown log)
    (hrun : (c.perform log).run g = .ok log' g') : log'.IsKnown := by
  obtain ⟨hgroups, hsuffixes, hedges, hrootStates⟩ := h
  cases c
  all_goals
    obtain ⟨_, -, rfl⟩ := run_bind_pure_eq_ok_iff.mp hrun
    clear hrun
    constructor
  all_goals
    simp only [Log.stateIds, Log.groupIds, Log.suffixIds, Call.UsesKnown, List.map_append,
      List.mem_append, List.map_cons, List.map_nil, List.mem_singleton] at *
    grind

section Refused

variable {e : GrammarError}

theorem Log.IsKeptBy.run_addState_eq_error_iff (h : log.IsKeptBy g) {s : State} :
    (Making.addState s).run g = .error e g' ↔ Call.IsRefused log (.addState s) e ∧ g' = g := by
  rw [run_addState, unless_eq_error_iff, h.stateIndex.isSome_lookup_iff]
  constructor
  · rintro ⟨hold, rfl, rfl⟩
    exact ⟨.duplicateState hold, rfl⟩
  · rintro ⟨hrefused, rfl⟩
    cases hrefused with
    | duplicateState hold => exact ⟨hold, rfl, rfl⟩

theorem Log.IsKeptBy.run_addSuffix_eq_error_iff (h : log.IsKeptBy g) {name : String}
    {printed : Option String} {group : Option GroupId} {repeats : Bool} :
    (Making.addSuffix name printed group repeats).run g = .error e g' ↔
      Call.IsRefused log (.addSuffix name printed group repeats) e ∧ g' = g := by
  rw [run_addSuffix, unless_eq_error_iff, h.suffixIndex.isSome_lookup_iff]
  constructor
  · rintro ⟨hold, rfl, rfl⟩
    exact ⟨.duplicateSuffix hold, rfl⟩
  · rintro ⟨hrefused, rfl⟩
    cases hrefused with
    | duplicateSuffix hold => exact ⟨hold, rfl, rfl⟩

theorem run_addForm_eq_error_iff {draft : FormDraft} :
    (Making.addForm draft.suffix draft.template draft.guards).run g = .error e g' ↔
      Call.IsRefused log (.addForm draft) e ∧ g' = g := by
  cases hcompile : Template.compile draft.template with
  | error fault =>
    rw [run_addForm_of_error _ _ hcompile]
    constructor
    · rintro ⟨⟩
      exact ⟨.invalidTemplate hcompile, rfl⟩
    · rintro ⟨hrefused, rfl⟩
      cases hrefused with
      | invalidTemplate hfault =>
        obtain rfl := Except.error.inj (hcompile.symm.trans hfault)
        rfl
  | ok t =>
    rw [run_addForm_of_ok _ _ hcompile]
    refine iff_of_false (by rintro ⟨⟩) ?_
    rintro ⟨hrefused, -⟩
    cases hrefused with
    | invalidTemplate hfault =>
      rw [hcompile] at hfault
      cases hfault

/-- A call fails for a reason, and then changes nothing. -/
theorem Log.IsKeptBy.run_eq_error_iff (h : log.IsKeptBy g) :
    (c.perform log).run g = .error e g' ↔ c.IsRefused log e ∧ g' = g := by
  cases c with
  | addState s => exact run_bind_pure_eq_error_iff.trans h.run_addState_eq_error_iff
  | addSuffix name printed joined repeats =>
    exact run_bind_pure_eq_error_iff.trans h.run_addSuffix_eq_error_iff
  | addForm draft => exact run_bind_pure_eq_error_iff.trans run_addForm_eq_error_iff
  -- The other calls cannot fail.
  | group name | addEdge e | setRootState pos secondary s =>
    refine iff_of_false (by rintro ⟨⟩) ?_
    rintro ⟨⟨⟩, -⟩

end Refused

/-- Whatever the calls are, the grammar keeps their log. -/
theorem IsMade.isKeptBy (h : IsMade log g) : log.IsKeptBy g ∧ log.IsKnown := by
  induction h with
  | start => exact ⟨.empty, by constructor <;> exact List.forall_mem_nil _⟩
  | success _ hknown hrun ih => exact ⟨ih.1.success hknown hrun, ih.2.success hknown hrun⟩
  | failure _ _ hrun ih =>
    obtain ⟨-, rfl⟩ := ih.1.run_eq_error_iff.mp hrun
    exact ih

/-- No suffix leads out of a made grammar. -/
theorem IsMade.isClosed (h : IsMade log g) : g.IsClosed := by
  obtain ⟨hkept, hlog⟩ := h.isKeptBy
  intro e he
  have hmem := Grammar.mem_edgesFrom_iff.mpr ⟨he, rfl⟩
  rw [hkept.edgesFrom] at hmem
  have htarget := (hlog.edges e (List.mem_filter.mp hmem).1).2.2
  rwa [Log.stateIds, hkept.states.map_snd] at htarget

end Making

end TurkishMorphology
