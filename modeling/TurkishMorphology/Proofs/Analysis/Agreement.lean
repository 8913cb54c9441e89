import TurkishMorphology.Proofs.Analysis.Step
import TurkishMorphology.Proofs.Grammar.Exploration
/-!
# Continuations and forms are taken alike

A form can be taken in two ways: as a continuation of the paradigm, which was spelled out
beforehand, or by its number, and then it is resolved when it is taken. In a context both come to
the same, refusals included. The form resolves there, and its spelling without voicing is listed
once. The gates differ in one point only, which is what they ask of a form that resolves to nothing:
a template with a position that is always filled never does, and one without positions cannot start
at all.

## Main definitions

- `Grammar.ListsOnce` — no way on is listed twice
- `Grammar.plainContinuation` — the continuation for a form without voicing

## Main statements

- `Grammar.filter_continuations_eq` — the plain continuation for a form is listed once
- `Analysis.takeContinuation_eq_takeForm` — the gates agree
- `Analysis.exists_plain_continuation` — both for the tables of Turkish
-/

namespace TurkishMorphology

/-- A list with one element of interest comes to what that element does. -/
theorem flatMap_eq_of_nodup {α β : Type} {f : α → List β} {l : List α} (hl : l.Nodup) {x : α}
    (hx : x ∈ l) (hothers : ∀ y ∈ l, y ≠ x → f y = []) : l.flatMap f = f x := by
  obtain ⟨before, after, rfl⟩ := List.append_of_mem hx
  have hx : x ∉ before ++ after := (List.nodup_middle.mp hl).notMem
  have hnil : ∀ ys : List α, (∀ y ∈ ys, y ∈ before ++ after) → ys.flatMap f = [] := by
    intro ys hys
    rw [List.flatMap_eq_nil_iff]
    intro y hy
    have hmem := hys y hy
    refine hothers y (by simp at hmem ⊢; tauto) ?_
    rintro rfl
    exact hx hmem
  rw [List.flatMap_append, List.flatMap_cons, hnil before fun y hy => List.mem_append_left _ hy,
    hnil after fun y hy => List.mem_append_right _ hy, List.nil_append, List.append_nil]

namespace Grammar

variable {g : Grammar} {context : PhoneticAttributes} {e : Edge} {id : FormId} {s : StateId}

/-- Edges and the forms of their suffixes are listed once, and a form is listed with its suffix. -/
structure ListsOnce (g : Grammar) : Prop where
  edges : g.edges.Nodup
  forms : ∀ e ∈ g.edges, (g.suffix e.suffix).forms.Nodup
  suffix : ∀ e ∈ g.edges, ∀ id ∈ (g.suffix e.suffix).forms, (g.form id).suffix = e.suffix

/-- The continuation to a state for a form that is spelled as its template stands. -/
def plainContinuation (g : Grammar) (context : PhoneticAttributes) (id : FormId)
    (target : StateId) : Continuation :=
  ⟨g.plainRealization id context, target,
    Phonetics.after context ((g.form id).template.resolve context)⟩

/-- A form that an edge offers has one continuation without voicing to the target of the edge. -/
theorem filter_continuations_eq (hg : g.ListsOnce) (hcontext : context ∈ Phonetics.contexts)
    (he : e ∈ g.edgesFrom s) (hid : id ∈ (g.suffix e.suffix).forms) :
    ((g.continuations s context).filter fun w =>
      w.realization.form = id ∧ w.target = e.target ∧ w.realization.awaits = none) =
      [g.plainContinuation context id e.target] := by
  have hmem {d : Edge} (hd : d ∈ g.edgesFrom s) : d ∈ g.edges ∧ d.source = s :=
    mem_edgesFrom_iff.mp hd
  have hsuffix : (g.form id).suffix = e.suffix := hg.suffix e (hmem he).1 id hid
  have hedges : (g.edgesFrom s).Nodup := nodup_edgesFrom hg.edges s
  rw [continuations_eq_of_mem_contexts g s hcontext, List.filter_flatMap,
    flatMap_eq_of_nodup hedges he, List.filter_flatMap,
    flatMap_eq_of_nodup (hg.forms e (hmem he).1) hid]
  · rw [plainContinuation, plainRealization, hsuffix]
    cases voicedVariant? ((g.form id).template.resolve context) <;> simp
  · intro other _ hne
    cases voicedVariant? ((g.form other).template.resolve context) <;> simp [hne]
  · intro d hd hne
    -- An edge to the same target with the same form has the same suffix.
    rw [List.filter_eq_nil_iff]
    intro w hw
    obtain ⟨other, hother, hw⟩ := List.mem_flatMap.mp hw
    have hform : w.realization.form = other ∧ w.target = d.target := by
      cases hvoiced : voicedVariant? ((g.form other).template.resolve context) with
      | none =>
        obtain rfl : w = _ := by simpa [hvoiced] using hw
        exact ⟨rfl, rfl⟩
      | some text =>
        obtain rfl | rfl : w = _ ∨ w = _ := by simpa [hvoiced] using hw
        · exact ⟨rfl, rfl⟩
        · exact ⟨rfl, rfl⟩
    simp only [decide_eq_true_eq, hform.1, hform.2]
    rintro ⟨rfl, htarget, -⟩
    refine hne ?_
    have hsame : d.suffix = e.suffix := (hg.suffix d (hmem hd).1 other hother).symm.trans hsuffix
    have hsource : d.source = e.source := (hmem hd).2.trans (hmem he).2.symm
    cases d
    cases e
    cases hsource
    cases hsame
    cases htarget
    rfl

end Grammar

namespace Analysis

variable {g : Grammar} {a : Analysis} {id : FormId} {target : StateId}
  {reading : Condition.Reading}

/-- What a definite template resolves to is judged like the template itself. -/
theorem meetsExpectations_startsOf_eq {t : Template} (ht : t.isDefinite = true)
    (context : PhoneticAttributes) :
    a.meetsExpectations (startsOf t (some (t.resolve context))) =
      a.meetsExpectations ((t.resolve context).head?.map Alphabet.isVowel).toList := by
  cases hresolve : t.resolve context with
  | nil =>
    have hstarts : startsOf t (some []) = t.starts := rfl
    rw [hstarts, Template.starts_eq_nil ht hresolve]
    rfl
  | cons c cs => rfl

/-- In a context, taking the plain continuation for a form and taking the form are the same, in what
    they refuse and why, and in what they lead to. -/
theorem takeContinuation_eq_takeForm (hcontext : a.attributes ∈ Phonetics.contexts)
    (hform : (g.form id).template.isDefinite = true) :
    a.takeContinuation g (g.plainContinuation a.attributes id target) reading =
      a.takeForm g id target reading := by
  have happ : (g.form id).template.isApplicable a.attributes = true :=
    Template.isApplicable_of_mem_contexts _ hcontext
  simp only [takeForm, happ, if_true, meetsExpectations_startsOf_eq hform]
  rfl

end Analysis

namespace Turkish

theorem listsOnce : grammar.ListsOnce where
  edges := by decide +kernel
  forms := by decide +kernel
  suffix := by decide +kernel

theorem source_mem_stateIds {e : Edge} (he : e ∈ grammar.edges) : e.source ∈ grammar.stateIds := by
  have hall : ∀ e ∈ grammar.edges, e.source ∈ grammar.stateIds := by decide +kernel
  exact hall e he

theorem isDefinite_template {e : Edge} (he : e ∈ grammar.edges) {id : FormId}
    (hid : id ∈ (grammar.suffix e.suffix).forms) :
    (grammar.form id).template.isDefinite = true := by
  have hall : ∀ e ∈ grammar.edges, ∀ id ∈ (grammar.suffix e.suffix).forms,
      (grammar.form id).template.isDefinite = true := by decide +kernel
  exact hall e he id hid

end Turkish

namespace Analysis

variable {a : Analysis} {e : Edge} {id : FormId}

/-- Whatever the analysis and whatever was taken before, in a context the cell of its state lists
    each form of each edge once without voicing, and taking this continuation is taking the form. -/
theorem exists_plain_continuation (hcontext : a.attributes ∈ Phonetics.contexts)
    (he : e ∈ Turkish.grammar.edgesFrom a.state)
    (hid : id ∈ (Turkish.grammar.suffix e.suffix).forms) :
    ∃ cell w, Turkish.paradigm.cell? a.state a.attributes = some cell ∧
      (cell.continuations.filter fun w =>
        w.realization.form = id ∧ w.target = e.target ∧ w.realization.awaits = none) = [w] ∧
      a.takeContinuation Turkish.grammar w = a.takeForm Turkish.grammar id e.target := by
  obtain ⟨hedge, hsource⟩ := Grammar.mem_edgesFrom_iff.mp he
  have hcell : Turkish.paradigm.cell? a.state a.attributes =
      some ⟨a.state, a.attributes, Turkish.grammar.continuations a.state a.attributes⟩ :=
    (Paradigm.cell?_ofGrammar_eq_some_iff Turkish.isClosed).mpr
      ⟨hsource ▸ Turkish.source_mem_stateIds hedge, hcontext, rfl⟩
  exact ⟨_, _, hcell, Grammar.filter_continuations_eq Turkish.listsOnce hcontext he hid,
    takeContinuation_eq_takeForm hcontext (Turkish.isDefinite_template hedge hid)⟩

/-- A noun that takes its plural. -/
theorem exists_plain_continuation_plural :
    let a := begin (.coined "kitap".toList
      { citation := "kitap".toList, lemmaRoot := "kitap".toList, pos := .noun })
      Turkish.StateName.nounRoot.id "lar".toList
    let e : Edge := ⟨a.state, Turkish.SuffixName.a3pl.id, Turkish.StateName.nounWithAgreement.id⟩
    let id : FormId := ⟨Turkish.SuffixName.a3pl.firstForm⟩
    a.attributes ∈ Phonetics.contexts ∧ e ∈ Turkish.grammar.edgesFrom a.state ∧
      id ∈ (Turkish.grammar.suffix e.suffix).forms ∧
      ∃ cell w, Turkish.paradigm.cell? a.state a.attributes = some cell ∧
        (cell.continuations.filter fun w =>
          w.realization.form = id ∧ w.target = e.target ∧ w.realization.awaits = none) = [w] ∧
        a.takeContinuation Turkish.grammar w = a.takeForm Turkish.grammar id e.target := by
  intro a e id
  have hcontext : a.attributes ∈ Phonetics.contexts := by decide +kernel
  have he : e ∈ Turkish.grammar.edgesFrom a.state := by decide +kernel
  have hid : id ∈ (Turkish.grammar.suffix e.suffix).forms := by decide +kernel
  exact ⟨hcontext, he, hid, exists_plain_continuation hcontext he hid⟩

end Analysis

end TurkishMorphology
