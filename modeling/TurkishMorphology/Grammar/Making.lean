import TurkishMorphology.Grammar.Basic
/-!
# Making grammars

A grammar is made step by step from the empty one. A step succeeds or fails, and either way there
is a grammar after it. States, suffixes, forms and groups get the next number of their kind. The
names of states and of suffixes must be new, and templates well written.

## Main definitions

- `Grammar.pushState`, `pushGroup`, `pushSuffix`, `pushForm` — grammars with one part more
- `Grammar.addEdge`, `setRootState`, `group` — changes that cannot fail
- `Making` — steps, of which `Making.addState`, `addSuffix` and `addForm` may fail
- `Making.outcome` — the grammar after a step that succeeds

## Main statements

- `Making.run_addState`, `run_addSuffix`, `run_addForm_of_error`, `run_addForm_of_ok`
-/

namespace TurkishMorphology

namespace Grammar

/-- Adds a state that no suffix leaves yet. -/
def pushState (g : Grammar) (s : State) : Grammar :=
  { g with
    states := g.states.push s
    exits := g.exits.push []
    stateIndex := (s.name, ⟨g.states.size⟩) :: g.stateIndex }

def pushGroup (g : Grammar) (name : String) : Grammar :=
  { g with
    groups := g.groups.push name
    groupIndex := (name, ⟨g.groups.size⟩) :: g.groupIndex }

def pushSuffix (g : Grammar) (s : Suffix) : Grammar :=
  { g with
    suffixes := g.suffixes.push s
    suffixIndex := (s.name, ⟨g.suffixes.size⟩) :: g.suffixIndex }

/-- Adds a form, also to the forms of its suffix. -/
def pushForm (g : Grammar) (f : Form) : Grammar :=
  { g with
    forms := g.forms.push f
    suffixes := g.suffixes.modify f.suffix.index fun s =>
      { s with forms := s.forms ++ [⟨g.forms.size⟩] } }

def addEdge (g : Grammar) (e : Edge) : Grammar :=
  { g with
    exits := g.exits.modify e.source.index fun exits => exits ++ [⟨e.suffix, e.target⟩] }

/-- Lets roots of a part of speech begin in a state. -/
def setRootState (g : Grammar) (pos : PrimaryPos) (secondary : Option SecondaryPos)
    (s : StateId) : Grammar :=
  { g with rootStates := ((pos, secondary), s) :: g.rootStates }

/-- The group with the given name, added if it is new. -/
def group (g : Grammar) (name : String) : Grammar × GroupId :=
  match g.groupIndex.lookup name with
  | some id => (g, id)
  | none => (g.pushGroup name, ⟨g.groups.size⟩)

section Parts

variable {g : Grammar}

theorem edgesFrom_pushState (g : Grammar) (s : State) (id : StateId) :
    (g.pushState s).edgesFrom id = g.edgesFrom id := by
  simp only [edgesFrom, pushState, Array.getD_eq_getD_getElem?, Array.getElem?_push]
  split
  · next heq => simp [heq]
  · rfl

theorem edgesFrom_addEdge {e : Edge} (h : e.source.index < g.exits.size) (id : StateId) :
    (g.addEdge e).edgesFrom id = g.edgesFrom id ++ [e].filter fun e => e.source = id := by
  by_cases heq : e.source = id
  · subst heq
    simp [edgesFrom, addEdge, Array.getElem_modify, h]
  · have hne : e.source.index ≠ id.index := fun h => heq (congrArg StateId.mk h)
    simp [edgesFrom, addEdge, Array.getD_eq_getD_getElem?, Array.getElem?_modify, heq, hne]

theorem forms_suffix_pushSuffix {s : Suffix} (h : s.forms = []) (id : SuffixId) :
    ((g.pushSuffix s).suffix id).forms = (g.suffix id).forms := by
  simp only [suffix, pushSuffix, Array.getD_eq_getD_getElem?, Array.getElem?_push]
  split
  · next heq =>
    rw [heq, Array.getElem?_eq_none (Nat.le_refl _)]
    exact h
  · rfl

theorem forms_suffix_pushForm {f : Form} (h : f.suffix.index < g.suffixes.size) (id : SuffixId) :
    ((g.pushForm f).suffix id).forms =
      (g.suffix id).forms ++ if f.suffix = id then [⟨g.forms.size⟩] else [] := by
  by_cases heq : f.suffix = id
  · subst heq
    simp [suffix, pushForm, Array.getElem_modify, h]
  · have hne : f.suffix.index ≠ id.index := fun h => heq (congrArg SuffixId.mk h)
    simp [suffix, pushForm, Array.getD_eq_getD_getElem?, Array.getElem?_modify, heq, hne]

end Parts

end Grammar

/-- A step in the making of a grammar. A step that fails leaves a grammar too. -/
abbrev Making := EStateM GrammarError Grammar

namespace Making

/-- Adds a state whose name is new. -/
def addState (s : State) : Making StateId := do
  let g ← get
  if (g.stateIndex.lookup s.name).isSome then throw (.duplicateState s.name)
  set (g.pushState s)
  return ⟨g.states.size⟩

def group (name : String) : Making GroupId :=
  modifyGet fun g => ((g.group name).2, (g.group name).1)

/-- Adds a suffix without forms, whose name is new. -/
def addSuffix (name : String) (printed : Option String) (group : Option GroupId)
    (repeats : Bool) : Making SuffixId := do
  let g ← get
  if (g.suffixIndex.lookup name).isSome then throw (.duplicateSuffix name)
  set (g.pushSuffix { name, printed, group, repeats })
  return ⟨g.suffixes.size⟩

/-- Adds a form of a suffix, spelled by a template that is well written. -/
def addForm (suffix : SuffixId) (template : Word) (guards : Guards) : Making FormId := do
  match Template.compile template with
  | .error fault => throw (.invalidTemplate template fault)
  | .ok template =>
    let g ← get
    set (g.pushForm { suffix, template, guards })
    return ⟨g.forms.size⟩

def addEdge (e : Edge) : Making Unit := modify fun g => g.addEdge e

def setRootState (pos : PrimaryPos) (secondary : Option SecondaryPos) (s : StateId) :
    Making Unit :=
  modify fun g => g.setRootState pos secondary s

section Run

variable {α β : Type} {m : Making α} {f : α → β} {g g' : Grammar}

theorem run_bind_pure_eq_ok_iff {b : β} :
    (m >>= fun a => pure (f a)).run g = .ok b g' ↔ ∃ a, m.run g = .ok a g' ∧ f a = b := by
  rw [EStateM.run_bind]
  cases m.run g with
  | ok a h =>
    constructor
    · rintro ⟨⟩
      exact ⟨a, rfl, rfl⟩
    · rintro ⟨_, ⟨⟩, rfl⟩
      rfl
  | error e h =>
    constructor
    · rintro ⟨⟩
    · rintro ⟨_, ⟨⟩, _⟩

theorem run_bind_pure_eq_error_iff {e : GrammarError} :
    (m >>= fun a => pure (f a)).run g = .error e g' ↔ m.run g = .error e g' := by
  rw [EStateM.run_bind]
  cases m.run g <;> simp

/-- A step that fails on a condition does so before it changes anything. -/
theorem run_unless (p : Prop) [Decidable p] (e : GrammarError) (g g' : Grammar) (a : α) :
    EStateM.run (do
      if p then throw e
      set g'
      return a : Making α) g = if p then .error e g else .ok a g' := by
  by_cases h : p
  · rw [if_pos h, if_pos h]
    rfl
  · rw [if_neg h, if_neg h]
    rfl

theorem unless_eq_error_iff {p : Prop} [Decidable p] {a : α} {e e' : GrammarError}
    {h : Grammar} :
    (if p then .error e g else .ok a g') = (.error e' h : EStateM.Result _ _ α) ↔
      p ∧ e = e' ∧ g = h := by
  split
  · next hp => simp [hp]
  · next hp => simp [hp]

theorem run_addState (s : State) : (addState s).run g =
    if (g.stateIndex.lookup s.name).isSome then .error (.duplicateState s.name) g
    else .ok ⟨g.states.size⟩ (g.pushState s) := by
  rw [addState, EStateM.run_bind]
  exact run_unless _ _ g _ _

theorem run_addSuffix (name : String) (printed : Option String) (group : Option GroupId)
    (repeats : Bool) : (addSuffix name printed group repeats).run g =
      if (g.suffixIndex.lookup name).isSome then .error (.duplicateSuffix name) g
      else .ok ⟨g.suffixes.size⟩ (g.pushSuffix { name, printed, group, repeats }) := by
  rw [addSuffix, EStateM.run_bind]
  exact run_unless _ _ g _ _

theorem run_addForm_of_error (suffix : SuffixId) {template : Word} (guards : Guards)
    {fault : TemplateFault} (h : Template.compile template = .error fault) :
    (addForm suffix template guards).run g = .error (.invalidTemplate template fault) g := by
  rw [addForm, h]
  rfl

theorem run_addForm_of_ok (suffix : SuffixId) {template : Word} (guards : Guards) {t : Template}
    (h : Template.compile template = .ok t) : (addForm suffix template guards).run g =
      .ok ⟨g.forms.size⟩ (g.pushForm { suffix, template := t, guards }) := by
  rw [addForm, h]
  rfl

theorem run_group (name : String) :
    (Making.group name).run g = .ok (g.group name).2 (g.group name).1 := rfl

theorem run_addEdge (e : Edge) : (Making.addEdge e).run g = .ok () (g.addEdge e) := rfl

theorem run_setRootState (pos : PrimaryPos) (secondary : Option SecondaryPos) (s : StateId) :
    (Making.setRootState pos secondary s).run g = .ok () (g.setRootState pos secondary s) := rfl

end Run

/-- The grammar after a step, and what the step gives, if it succeeds. -/
def outcome {α : Type} (m : Making α) (g : Grammar) : Except GrammarError (Grammar × α) :=
  match m.run g with
  | .ok a h => .ok (h, a)
  | .error e _ => .error e

end Making

namespace Grammar

def addState (g : Grammar) (s : State) : Except GrammarError (Grammar × StateId) :=
  (Making.addState s).outcome g

def addSuffix (g : Grammar) (name : String) (printed : Option String) (group : Option GroupId)
    (repeats : Bool) : Except GrammarError (Grammar × SuffixId) :=
  (Making.addSuffix name printed group repeats).outcome g

def addForm (g : Grammar) (suffix : SuffixId) (template : Word) (guards : Guards) :
    Except GrammarError (Grammar × FormId) :=
  (Making.addForm suffix template guards).outcome g

end Grammar

end TurkishMorphology
