import TurkishMorphology.Proofs.Grammar.Log
import Mathlib.Data.List.Nodup
/-!
# Made grammars

What a grammar answers is what the log of its calls says. Its numbers run from zero on in the order
of the calls, its names lead to what is stored under them, each form belongs to one suffix, and a
form is found when its suffix has no other with the template.

## Main definitions

- `Making.Log.HasForm` — the forms that were added to a suffix with a template
- `Making.Log.Describes` — a grammar answers as a log says

## Main statements

- `Making.Log.IsKeptBy.mem_forms_iff` — the forms of a suffix
- `Making.Log.IsKeptBy.findForm_cases` — looking for a form
- `Making.IsMade.describes` — every made grammar
-/

namespace TurkishMorphology

namespace Making

/-- The form was added to the suffix with the template. -/
def Log.HasForm (log : Log) (s : SuffixId) (template : Word) (f : FormId) : Prop :=
  ∃ guards, (⟨s, template, guards⟩, f) ∈ log.forms

/-- The grammar has what was added and nothing else, finds it by number and by name, and is left as
    it is by calls that fail. -/
structure Log.Describes (log : Log) (g : Grammar) : Prop where
  /-- Numbers are given out from zero on, in the order of the calls. -/
  stateIds : log.stateIds = (List.range g.states.size).map StateId.mk
  suffixIds : log.suffixIds = (List.range g.suffixes.size).map SuffixId.mk
  formIds : log.formIds = (List.range g.forms.size).map FormId.mk
  /-- The first call for each group gives out a number. -/
  groupIds : log.groups.eraseDups.map Prod.snd = (List.range g.groups.size).map GroupId.mk
  state : ∀ p ∈ log.states, g.state p.2 = p.1
  suffix : ∀ p ∈ log.suffixes, (g.suffix p.2).bare = p.1
  groupName : ∀ p ∈ log.groups, g.groupName p.2 = p.1
  form : ∀ p ∈ log.forms, (g.form p.2).draft = p.1 ∧
    Template.compile p.1.template = .ok (g.form p.2).template
  /-- The names of what was added are found. -/
  exists_stateId : ∀ name, (∃ id, g.stateId name = .ok id) ↔ ∃ p ∈ log.states, p.1.name = name
  stateId : ∀ name id, g.stateId name = .ok id ↔ id ∈ log.stateIds ∧ (g.state id).name = name
  exists_suffixId : ∀ name,
    (∃ id, g.suffixId name = .ok id) ↔ ∃ p ∈ log.suffixes, p.1.name = name
  suffixId : ∀ name id,
    g.suffixId name = .ok id ↔ id ∈ log.suffixIds ∧ (g.suffix id).name = name
  group : ∀ p ∈ log.groups, ∀ q ∈ log.groups, p.2 = q.2 ↔ p.1 = q.1
  /-- The suffix of a form, and no other one, has the form among its own, once. -/
  suffix_form : ∀ f ∈ log.formIds, (g.form f).suffix ∈ log.suffixIds
  mem_forms : ∀ s f, f ∈ (g.suffix s).forms ↔ f ∈ log.formIds ∧ (g.form f).suffix = s
  nodup_forms : ∀ s, (g.suffix s).forms.Nodup
  /-- Each state has a list of its own of the edges that leave it. -/
  exits : g.exits.size = g.states.size
  edgesFrom : ∀ s, g.edgesFrom s = log.edges.filter fun e => e.source = s
  rootStates : g.rootStates = log.rootStates.reverse
  found : ∀ s template f, g.findForm s template = .ok f ↔
    ∀ f', log.HasForm s template f' ↔ f' = f
  ambiguous : ∀ s template,
    g.findForm s template = .error (.ambiguousForm (g.suffix s).name template) ↔
      ∃ f f', f ≠ f' ∧ log.HasForm s template f ∧ log.HasForm s template f'
  unknown : ∀ s template,
    g.findForm s template = .error (.unknownForm (g.suffix s).name template) ↔
      ∀ f, ¬ log.HasForm s template f
  /-- The numbers in what was added were given out, so that something is stored at each. -/
  known : log.IsKnown
  refused : ∀ (c : Call) (e : GrammarError) (g' : Grammar),
    (c.perform log).run g = .error e g' ↔ c.IsRefused log e ∧ g' = g

namespace Log.IsKeptBy

variable {log : Log} {g : Grammar}

/-- What is stored at a number is what got it. -/
theorem state_eq (h : log.IsKeptBy g) {p : State × StateId} (hp : p ∈ log.states) :
    g.state p.2 = p.1 :=
  h.states.view_getD StateId.index (fun _ => rfl) default hp

theorem groupName_eq (h : log.IsKeptBy g) {p : String × GroupId} (hp : p ∈ log.groups) :
    g.groupName p.2 = p.1 :=
  h.groups.view_getD GroupId.index (fun _ => rfl) _ (List.mem_eraseDups.mpr hp)

theorem bare_suffix_eq (h : log.IsKeptBy g) {p : Suffix × SuffixId} (hp : p ∈ log.suffixes) :
    (g.suffix p.2).bare = p.1 :=
  h.suffixes.view_getD SuffixId.index (fun _ => rfl) default hp

theorem form_eq (h : log.IsKeptBy g) {p : FormDraft × FormId} (hp : p ∈ log.forms) :
    (g.form p.2).draft = p.1 ∧ Template.compile p.1.template = .ok (g.form p.2).template := by
  obtain ⟨n, f, hf, rfl⟩ := h.forms.exists_of_mem hp
  rw [Grammar.form, Array.getD_eq_getD_getElem?, hf]
  exact ⟨rfl, h.templates f (Array.mem_of_getElem? hf)⟩

/-- The names that are found are those that were added. -/
theorem exists_stateId_iff (h : log.IsKeptBy g) {name : String} :
    (∃ id, g.stateId name = .ok id) ↔ ∃ p ∈ log.states, p.1.name = name := by
  simp only [Grammar.stateId_eq_ok_iff, ← Option.isSome_iff_exists,
    h.stateIndex.isSome_lookup_iff]

theorem exists_suffixId_iff (h : log.IsKeptBy g) {name : String} :
    (∃ id, g.suffixId name = .ok id) ↔ ∃ p ∈ log.suffixes, p.1.name = name := by
  simp only [Grammar.suffixId_eq_ok_iff, ← Option.isSome_iff_exists,
    h.suffixIndex.isSome_lookup_iff]

/-- A name leads to the number at which it is stored. -/
theorem stateId_eq_ok_iff (h : log.IsKeptBy g) {name : String} {id : StateId} :
    g.stateId name = .ok id ↔ id ∈ log.stateIds ∧ (g.state id).name = name := by
  rw [Grammar.stateId_eq_ok_iff]
  exact h.stateIndex.lookup_eq_some_iff (fun id => (g.state id).name) fun p hp =>
    congrArg State.name (h.state_eq hp)

theorem suffixId_eq_ok_iff (h : log.IsKeptBy g) {name : String} {id : SuffixId} :
    g.suffixId name = .ok id ↔ id ∈ log.suffixIds ∧ (g.suffix id).name = name := by
  rw [Grammar.suffixId_eq_ok_iff]
  refine h.suffixIndex.lookup_eq_some_iff (fun id => (g.suffix id).name) fun p hp => ?_
  rw [← h.bare_suffix_eq hp]
  rfl

theorem mem_forms_iff (h : log.IsKeptBy g) {s : SuffixId} {f : FormId} :
    f ∈ (g.suffix s).forms ↔ f ∈ log.formIds ∧ (g.form f).suffix = s := by
  rw [h.formsOf s, formIds]
  simp only [List.mem_map, List.mem_filter, decide_eq_true_eq]
  constructor
  · rintro ⟨p, ⟨hp, hsuffix⟩, rfl⟩
    refine ⟨⟨p, hp, rfl⟩, ?_⟩
    rw [← hsuffix, ← (h.form_eq hp).1]
    rfl
  · rintro ⟨⟨p, hp, rfl⟩, hsuffix⟩
    refine ⟨p, ⟨hp, ?_⟩, rfl⟩
    rw [← hsuffix, ← (h.form_eq hp).1]
    rfl

theorem nodup_forms (h : log.IsKeptBy g) (s : SuffixId) : (g.suffix s).forms.Nodup := by
  have hall : log.formIds.Nodup := by
    rw [formIds, h.forms.map_snd]
    exact List.Nodup.map (fun _ _ heq => congrArg FormId.index heq) List.nodup_range
  rw [h.formsOf s]
  exact hall.sublist (List.filter_sublist.map Prod.snd)

/-- The forms of a suffix with a template, as they are looked for. -/
theorem mem_hits_iff (h : log.IsKeptBy g) (s : SuffixId) (template : Word) {f : FormId} :
    (f ∈ (g.suffix s).forms.filter fun f => (g.form f).template.text == template) ↔
      log.HasForm s template f := by
  rw [List.mem_filter, h.mem_forms_iff, formIds, beq_iff_eq]
  constructor
  · rintro ⟨⟨hf, rfl⟩, rfl⟩
    obtain ⟨p, hp, rfl⟩ := List.mem_map.mp hf
    have heq : p = ((g.form p.2).draft, p.2) := by rw [(h.form_eq hp).1]
    exact ⟨(g.form p.2).guards, heq ▸ hp⟩
  · rintro ⟨guards, hp⟩
    have hdraft := (h.form_eq hp).1
    exact ⟨⟨List.mem_map.mpr ⟨_, hp, rfl⟩, congrArg FormDraft.suffix hdraft⟩,
      congrArg FormDraft.template hdraft⟩

/-- Looking for a form fails if there is none or there are several, and in no other way. -/
theorem findForm_cases (h : log.IsKeptBy g) (s : SuffixId) (template : Word) :
    (g.findForm s template = .error (.unknownForm (g.suffix s).name template) ∧
      ∀ f, ¬ log.HasForm s template f) ∨
    (∃ f, g.findForm s template = .ok f ∧ ∀ f', log.HasForm s template f' ↔ f' = f) ∨
    (g.findForm s template = .error (.ambiguousForm (g.suffix s).name template) ∧
      ∃ f f', f ≠ f' ∧ log.HasForm s template f ∧ log.HasForm s template f') := by
  have hmem (f : FormId) := h.mem_hits_iff s template (f := f)
  have hnodup := (h.nodup_forms s).filter fun f => (g.form f).template.text == template
  simp only [Grammar.findForm]
  generalize (g.suffix s).forms.filter (fun f => (g.form f).template.text == template) = hits
    at hmem hnodup ⊢
  cases hits with
  | nil => exact .inl ⟨rfl, fun f hf => absurd ((hmem f).mpr hf) List.not_mem_nil⟩
  | cons f rest =>
    cases rest with
    | nil => exact .inr (.inl ⟨f, rfl, fun f' => (hmem f').symm.trans List.mem_singleton⟩)
    | cons f' rest =>
      have hne : f ≠ f' := by
        rintro rfl
        exact (List.nodup_cons.mp hnodup).1 (List.mem_cons_self ..)
      exact .inr (.inr ⟨rfl, f, f', hne, (hmem f).mp (List.mem_cons_self ..),
        (hmem f').mp (List.mem_cons_of_mem _ (List.mem_cons_self ..))⟩)

theorem findForm_eq_ok_iff (h : log.IsKeptBy g) {s : SuffixId} {template : Word} {f : FormId} :
    g.findForm s template = .ok f ↔ ∀ f', log.HasForm s template f' ↔ f' = f := by
  obtain ⟨heq, hnone⟩ | ⟨f₁, heq, hone⟩ | ⟨heq, f₁, f₂, hne, h₁, h₂⟩ :=
    h.findForm_cases s template
  all_goals rw [heq]
  · exact iff_of_false (by rintro ⟨⟩) fun hf => hnone f ((hf f).mpr rfl)
  · constructor
    · rintro ⟨⟩
      exact hone
    · intro hf
      rw [(hf f₁).mp ((hone f₁).mpr rfl)]
  · exact iff_of_false (by rintro ⟨⟩) fun hf => hne (((hf f₁).mp h₁).trans ((hf f₂).mp h₂).symm)

theorem findForm_eq_ambiguousForm_iff (h : log.IsKeptBy g) {s : SuffixId} {template : Word} :
    g.findForm s template = .error (.ambiguousForm (g.suffix s).name template) ↔
      ∃ f f', f ≠ f' ∧ log.HasForm s template f ∧ log.HasForm s template f' := by
  obtain ⟨heq, hnone⟩ | ⟨f, heq, hone⟩ | ⟨heq, hseveral⟩ := h.findForm_cases s template
  all_goals rw [heq]
  · exact iff_of_false (by rintro ⟨⟩) fun ⟨f, _, _, hf, _⟩ => hnone f hf
  · exact iff_of_false (by rintro ⟨⟩) fun ⟨f₁, f₂, hne, h₁, h₂⟩ =>
      hne (((hone f₁).mp h₁).trans ((hone f₂).mp h₂).symm)
  · exact iff_of_true rfl hseveral

theorem findForm_eq_unknownForm_iff (h : log.IsKeptBy g) {s : SuffixId} {template : Word} :
    g.findForm s template = .error (.unknownForm (g.suffix s).name template) ↔
      ∀ f, ¬ log.HasForm s template f := by
  obtain ⟨heq, hnone⟩ | ⟨f, heq, hone⟩ | ⟨heq, f, _, _, hf, _⟩ := h.findForm_cases s template
  all_goals rw [heq]
  · exact iff_of_true rfl hnone
  · exact iff_of_false (by rintro ⟨⟩) fun hnone => hnone f ((hone f).mpr rfl)
  · exact iff_of_false (by rintro ⟨⟩) fun hnone => hnone f hf

/-- What holds of the collections is what the log says of the grammar. -/
theorem describes_of_isKnown (h : log.IsKeptBy g) (hlog : log.IsKnown) : log.Describes g where
  stateIds := h.states.map_snd
  suffixIds := h.suffixes.map_snd
  formIds := h.forms.map_snd
  groupIds := h.groups.map_snd
  state _ := h.state_eq
  suffix _ := h.bare_suffix_eq
  groupName _ := h.groupName_eq
  form _ := h.form_eq
  exists_stateId _ := h.exists_stateId_iff
  stateId _ _ := h.stateId_eq_ok_iff
  exists_suffixId _ := h.exists_suffixId_iff
  suffixId _ _ := h.suffixId_eq_ok_iff
  group p hp q hq := by
    constructor
    · intro heq
      rw [← h.groupName_eq hp, ← h.groupName_eq hq, heq]
    · intro heq
      have hid := (h.groupIndex p.1 p.2).mpr ⟨p.1, hp, rfl⟩
      rw [heq, (h.groupIndex q.1 q.2).mpr ⟨q.1, hq, rfl⟩] at hid
      exact (Option.some_inj.mp hid).symm
  suffix_form f hf := by
    obtain ⟨p, hp, rfl⟩ := List.mem_map.mp hf
    rw [show (g.form p.2).suffix = p.1.suffix from congrArg FormDraft.suffix (h.form_eq hp).1]
    exact hlog.suffixes _ (List.mem_map_of_mem hp)
  mem_forms _ _ := h.mem_forms_iff
  nodup_forms := h.nodup_forms
  exits := h.exits
  edgesFrom := h.edgesFrom
  rootStates := h.rootStates
  found _ _ _ := h.findForm_eq_ok_iff
  ambiguous _ _ := h.findForm_eq_ambiguousForm_iff
  unknown _ _ := h.findForm_eq_unknownForm_iff
  known := hlog
  refused _ _ _ := h.run_eq_error_iff

end Log.IsKeptBy

/-- Whatever calls it is made by, a grammar is what their log describes. Numbers being unbounded,
    there is no condition on how many calls there are. With numbers of 32 bits the same holds
    for fewer than `2 ^ 32` calls, since no call gives out more than one. -/
theorem IsMade.describes {log : Log} {g : Grammar} (h : IsMade log g) : log.Describes g :=
  h.isKeptBy.1.describes_of_isKnown h.isKeptBy.2

/-- The dative, with its two forms, in a grammar of two states; adding the end again is refused. -/
theorem describes_dative : ∃ log g, IsMade log g ∧ log.Describes g ∧
    g.stateId "END" = .ok ⟨1⟩ ∧ g.findForm ⟨0⟩ ['n', 'A'] = .ok ⟨1⟩ ∧
      g.edgesFrom ⟨0⟩ = [⟨⟨0⟩, ⟨0⟩, ⟨1⟩⟩] := by
  have h := IsMade.start
  have h := h.success (c := .addState ⟨"ROOT", .nonTerminal, .noun⟩) (by decide) rfl
  have h := h.success (c := .addState ⟨"END", .terminal, .noun⟩) (by decide) rfl
  have h := h.failure (c := .addState ⟨"END", .terminal, .noun⟩) (by decide) rfl
  have h := h.success (c := .group "Cases") (by decide) rfl
  have h := h.success (c := .addSuffix "Dat" (some "Dat") (some ⟨0⟩) false) (by decide) rfl
  have h := h.success (c := .addForm ⟨⟨0⟩, ['+', 'y', 'A'], {}⟩) (by decide) rfl
  have h := h.success (c := .addForm ⟨⟨0⟩, ['n', 'A'], {}⟩) (by decide) rfl
  have h := h.success (c := .addEdge ⟨⟨0⟩, ⟨0⟩, ⟨1⟩⟩) (by decide) rfl
  have h := h.success (c := .setRootState .noun none ⟨0⟩) (by decide) rfl
  exact ⟨_, _, h, h.describes, by decide, by decide, by decide⟩

end Making

end TurkishMorphology
