import TurkishMorphology.Grammar.Paradigm
import TurkishMorphology.Analysis.Basic
import Mathlib.Data.List.Basic
/-!
# What a paradigm offers

Each continuation in a cell stands for an edge of the grammar and a form of its suffix, spelled as
the template stands in the context of the cell or with its final stop voiced.

## Main statements

- `Realization.IsSpelledIn` — the two ways in which a form is spelled in a context
- `Grammar.mem_continuations_iff` — the continuations from a state in a context
- `Step.Follows` — a step along an edge of the grammar
-/

namespace TurkishMorphology

/-- A realization of a form in a context: what the template stands for there, or the same with
    its final consonant voiced, which then awaits a vowel. -/
structure Realization.IsSpelledIn (g : Grammar) (context : PhoneticAttributes) (r : Realization) :
    Prop where
  applicable : (g.form r.form).template.isApplicable context = true
  plain : r.plain = (g.form r.form).template.resolve context
  text : r.text = r.plain ∧ r.awaits = none ∨
    ∃ stem c v, r.plain = stem ++ [c] ∧ Alphabet.voice? c = some v ∧ r.text = stem ++ [v] ∧
      r.awaits = some .vowelStart

theorem voicedVariant?_eq_some {plain text : Word} (h : voicedVariant? plain = some text) :
    ∃ stem c v, plain = stem ++ [c] ∧ Alphabet.voice? c = some v ∧ text = stem ++ [v] := by
  unfold voicedVariant? at h
  split at h
  · cases h
  · obtain ⟨v, hlast, rfl⟩ := Option.map_eq_some_iff.mp h
    obtain ⟨c, hc, hv⟩ := Option.bind_eq_some_iff.mp hlast
    obtain ⟨stem, rfl⟩ := List.getLast?_eq_some_iff.mp hc
    exact ⟨stem, c, v, rfl, hv, by simp [Word.withLast]⟩

namespace Grammar

variable {g : Grammar} {context : PhoneticAttributes} {r : Realization}

theorem isSpelledIn_plainRealization {id : FormId} {suffix : SuffixId}
    (h : (g.form id).template.isApplicable context = true) :
    (⟨id, suffix, (g.form id).template.resolve context, (g.form id).template.resolve context,
      none⟩ : Realization).IsSpelledIn g context :=
  ⟨h, rfl, .inl ⟨rfl, rfl⟩⟩

/-- A realization of a form is spelled as the form is in the context. -/
theorem isSpelledIn_of_mem_realizations {id : FormId} {suffix : SuffixId}
    (h : r ∈ g.realizations context suffix id) :
    r.IsSpelledIn g context ∧ r.form = id ∧ r.suffix = suffix := by
  unfold realizations at h
  simp only at h
  split at h
  · next happ =>
    obtain rfl | h := List.mem_cons.mp h
    · exact ⟨isSpelledIn_plainRealization happ, rfl, rfl⟩
    · obtain ⟨text, htext, rfl⟩ : ∃ text, voicedVariant? ((g.form id).template.resolve context)
          = some text ∧ (⟨id, suffix, text, (g.form id).template.resolve context,
            some .vowelStart⟩ : Realization) = r := by
        simpa using h
      obtain ⟨stem, c, v, hplain, hv, ht⟩ := voicedVariant?_eq_some htext
      exact ⟨⟨happ, rfl, .inr ⟨stem, c, v, hplain, hv, ht, rfl⟩⟩, rfl, rfl⟩
  · cases h

theorem mem_continuations_iff {s : StateId} {c : Continuation} :
    c ∈ g.continuations s context ↔
      ∃ e ∈ g.edges, e.source = s ∧ ∃ id ∈ (g.suffix e.suffix).forms,
        ∃ r ∈ g.realizations context e.suffix id,
          c = ⟨r, e.target, Phonetics.after context r.text⟩ := by
  simp only [continuations, continuationsAlong, mem_edgesFrom_iff, List.mem_flatMap,
    List.mem_map, and_assoc]
  constructor
  · rintro ⟨e, he, hs, r, ⟨id, hid, hr⟩, rfl⟩
    exact ⟨e, he, hs, id, hid, r, hr, rfl⟩
  · rintro ⟨e, he, hs, id, hid, r, hr, rfl⟩
    exact ⟨e, he, hs, r, ⟨id, hid, hr⟩, rfl⟩

end Grammar

/-- A step along an edge of the grammar, with a form of the suffix of the edge, spelled as it is in
    the context before the step. -/
structure Step.Follows (g : Grammar) (context : PhoneticAttributes) (s : Step) : Prop where
  edge : ⟨s.source, s.realization.suffix, s.target⟩ ∈ g.edges
  form : s.realization.form ∈ (g.suffix s.realization.suffix).forms
  spelled : s.realization.IsSpelledIn g context

/-- Every continuation of a state follows the grammar. -/
theorem Grammar.follows_of_mem_continuations {g : Grammar} {context : PhoneticAttributes}
    {source : StateId} {c : Continuation} {derives : Bool}
    (h : c ∈ g.continuations source context) :
    (⟨source, c.realization, c.target, derives⟩ : Step).Follows g context := by
  obtain ⟨e, he, rfl, id, hid, r, hr, rfl⟩ := mem_continuations_iff.mp h
  obtain ⟨hspelled, rfl, hsuffix⟩ := isSpelledIn_of_mem_realizations hr
  exact ⟨hsuffix ▸ he, hsuffix ▸ hid, hspelled⟩

end TurkishMorphology
