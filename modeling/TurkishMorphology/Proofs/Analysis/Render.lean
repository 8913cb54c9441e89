import TurkishMorphology.Analysis.Render
import TurkishMorphology.Proofs.Analysis.Irregular
/-!
# Reading printed analyses

What is printed of the steps of an analysis is a list of marks: the parts of speech that derivations
lead to and the names of suffixes, with their templates and texts. The marks can be read back from
the printed text, as no name contains the signs that end it, and neither does a template or a text.

## Main definitions

- `Mark`, `Step.marks` — what is printed of a step
- `Mark.isClear`, `Step.isClear` — what can be told from what is printed after it

## Main statements

- `Mark.eq_of_flatMap_text_eq` — marks can be read back
- `Analysis.marks_eq_of_render_eq` — what printed analyses of one root have in common
- `Grammar.PrintsClearly.isClear` — the marks of steps along the grammar are clear
-/

namespace TurkishMorphology

/-- What is printed between two plus signs outside of brackets: a name, and a template with what it
    was resolved to. -/
structure Mark where
  name : Word
  spoken : Option (Word × Word) := none
deriving DecidableEq

namespace Mark

def text (m : Mark) : Word :=
  '+' :: m.name ++
    match m.spoken with
    | none => []
    | some (template, text) => '(' :: template ++ '[' :: text ++ [']', ')']

/-- Whether a character may stand in a name. -/
def inName (c : Char) : Bool := c != '+' && c != '('

/-- Whether the name, the template and the text do not contain the signs that end them. -/
def isClear (m : Mark) : Bool :=
  m.name.all inName && m.spoken.all fun (template, text) =>
    template.all (· != '[') && text.all (· != ']')

/-- What ends at the first character of another kind can be told from what comes after it. -/
theorem eq_of_append_eq {p : Char → Bool} {xs ys r s : Word} (hx : xs.all p = true)
    (hy : ys.all p = true) (hr : r.head?.all (fun c => !p c) = true)
    (hs : s.head?.all (fun c => !p c) = true) (h : xs ++ r = ys ++ s) : xs = ys ∧ r = s := by
  induction xs generalizing ys with
  | nil =>
    cases ys with
    | nil => exact ⟨rfl, h⟩
    | cons y ys =>
      obtain rfl : r = y :: (ys ++ s) := h
      simp only [List.all_cons, Bool.and_eq_true] at hy
      simp [hy.1] at hr
  | cons x xs ih =>
    rw [List.all_cons, Bool.and_eq_true] at hx
    cases ys with
    | nil =>
      obtain rfl : x :: (xs ++ r) = s := h
      simp [hx.1] at hs
    | cons y ys =>
      rw [List.all_cons, Bool.and_eq_true] at hy
      obtain ⟨rfl, hrest⟩ := List.cons.inj h
      obtain ⟨rfl, rfl⟩ := ih hx.2 hy.2 hrest
      exact ⟨rfl, rfl⟩

/-- A clear mark can be told from the marks that are printed after it. -/
theorem eq_of_text_append_eq {m n : Mark} {r s : Word} (hm : m.isClear = true)
    (hn : n.isClear = true)
    (hr : r.head?.all (· == '+') = true) (hs : s.head?.all (· == '+') = true)
    (h : m.text ++ r = n.text ++ s) : m = n ∧ r = s := by
  obtain ⟨name, spoken⟩ := m
  obtain ⟨name', spoken'⟩ := n
  simp only [isClear, Bool.and_eq_true] at hm hn
  obtain ⟨hname, hspoken⟩ := hm
  obtain ⟨hname', hspoken'⟩ := hn
  have hstops : ∀ {w : Word}, w.head?.all (· == '+') = true →
      w.head?.all (fun c => !inName c) = true := by
    intro w hw
    cases hhead : w.head? with
    | none => rfl
    | some c =>
      obtain rfl : c = '+' := by simpa [hhead] using hw
      rfl
  cases spoken with
  | none =>
    cases spoken' with
    | none =>
      simp only [text, List.append_nil, List.cons_append, List.cons.injEq, true_and] at h
      obtain ⟨rfl, rfl⟩ := eq_of_append_eq hname hname' (hstops hr) (hstops hs) h
      exact ⟨rfl, rfl⟩
    | some spoken' =>
      simp only [text, List.append_nil, List.cons_append, List.append_assoc, List.cons.injEq,
        true_and] at h
      obtain ⟨-, rfl⟩ := eq_of_append_eq hname hname' (hstops hr) rfl h
      cases hr
  | some spoken =>
    cases spoken' with
    | none =>
      simp only [text, List.append_nil, List.cons_append, List.append_assoc, List.cons.injEq,
        true_and] at h
      obtain ⟨-, rfl⟩ := eq_of_append_eq hname hname' rfl (hstops hs) h
      cases hs
    | some spoken' =>
      obtain ⟨template, added⟩ := spoken
      obtain ⟨template', added'⟩ := spoken'
      simp only [text, List.cons_append, List.append_assoc, List.cons.injEq, true_and,
        List.nil_append] at h
      obtain ⟨htemplate, hadded⟩ := Bool.and_eq_true_iff.mp hspoken
      obtain ⟨htemplate', hadded'⟩ := Bool.and_eq_true_iff.mp hspoken'
      obtain ⟨rfl, h₁⟩ := eq_of_append_eq hname hname' rfl rfl h
      obtain ⟨rfl, h₂⟩ := eq_of_append_eq htemplate htemplate' rfl rfl (List.cons.inj h₁).2
      obtain ⟨rfl, h₃⟩ := eq_of_append_eq hadded hadded' rfl rfl (List.cons.inj h₂).2
      exact ⟨rfl, by simpa using h₃⟩

theorem head?_flatMap_text (ms : List Mark) :
    (ms.flatMap text).head?.all (· == '+') = true := by
  cases ms <;> rfl

/-- Clear marks can be read back from what is printed of them. -/
theorem eq_of_flatMap_text_eq {ms ns : List Mark} (hms : ∀ m ∈ ms, m.isClear = true)
    (hns : ∀ n ∈ ns, n.isClear = true) (h : ms.flatMap text = ns.flatMap text) : ms = ns := by
  induction ms generalizing ns with
  | nil =>
    cases ns with
    | nil => rfl
    | cons n ns => cases h
  | cons m ms ih =>
    cases ns with
    | nil => cases h
    | cons n ns =>
      rw [List.flatMap_cons, List.flatMap_cons] at h
      obtain ⟨hmn, hrest⟩ := eq_of_text_append_eq (hms m (List.mem_cons_self ..))
        (hns n (List.mem_cons_self ..)) (head?_flatMap_text ms) (head?_flatMap_text ns) h
      rw [hmn, ih (fun m hm => hms m (List.mem_cons_of_mem _ hm))
        (fun n hn => hns n (List.mem_cons_of_mem _ hn)) hrest]

end Mark

namespace Step

/-- What is printed of a step. -/
def marks (g : Grammar) (s : Step) : List Mark :=
  (if s.derives then [{ name := (g.state s.target).pos.tag.toList }] else []) ++
    match (g.suffix s.realization.suffix).printed with
    | none => []
    | some name =>
      [{ name := name.toList
         spoken := if s.realization.text.hasAlphanumeric then
             some ((g.form s.realization.form).template.text, s.realization.text)
           else none }]

/-- Whether what is printed of a step can be told from what is printed after it. -/
def isClear (g : Grammar) (s : Step) : Bool := (s.marks g).all Mark.isClear

theorem renderStep_eq (g : Grammar) (s : Step) :
    Analysis.renderStep g true s = (s.marks g).flatMap Mark.text := by
  unfold Analysis.renderStep marks Analysis.renderDerivation Analysis.renderText
  cases s.derives <;> cases (g.suffix s.realization.suffix).printed <;>
    cases s.realization.text.hasAlphanumeric <;> simp [Mark.text]

end Step

namespace Grammar

/-- Names, templates and the letters that templates may stand for do not contain the signs that end
    them. -/
def PrintsClearly (g : Grammar) : Prop :=
  ∀ e ∈ g.edges, ((g.suffix e.suffix).printed.all fun name => name.toList.all Mark.inName) = true ∧
    ∀ id ∈ (g.suffix e.suffix).forms, (g.form id).template.text.all (· != '[') = true ∧
      ((g.form id).template.slots.all fun s => s.letters.all (· != ']')) = true

/-- The marks of a step along the grammar are clear. -/
theorem PrintsClearly.isClear {g : Grammar} (hg : g.PrintsClearly) {context : PhoneticAttributes}
    {s : Step} (h : s.Follows g context) : s.isClear g = true := by
  obtain ⟨hname, hforms⟩ := hg _ h.edge
  obtain ⟨htemplate, hletters⟩ := hforms _ h.form
  have htext : s.realization.text.all (· != ']') = true := by
    rw [List.all_eq_true]
    intro c hc
    obtain ⟨slot, hslot, hc⟩ | hc := h.spelled.mem_letters hc
    · exact List.all_eq_true.mp (List.all_eq_true.mp hletters slot hslot) c hc
    · have hvoiced : Alphabet.voicedChars.all (· != ']') = true := by decide
      exact List.all_eq_true.mp hvoiced c hc
  have htag : ∀ pos : PrimaryPos, pos.tag.toList.all Mark.inName = true := by
    intro pos
    cases pos <;> decide
  rw [Step.isClear, Step.marks, List.all_append, Bool.and_eq_true]
  constructor
  · split
    · simp [Mark.isClear, htag]
    · rfl
  · cases hprinted : (g.suffix s.realization.suffix).printed with
    | none => rfl
    | some name =>
      rw [hprinted] at hname
      cases s.realization.text.hasAlphanumeric with
      | true => simp_all [Mark.isClear]
      | false => simp_all [Mark.isClear]

end Grammar

namespace Analysis

/-- Printed analyses of one root agree in their marks. -/
theorem marks_eq_of_render_eq {g : Grammar} {a b : Analysis} (hroot : a.root = b.root)
    (ha : ∀ s ∈ a.steps, s.isClear g = true) (hb : ∀ s ∈ b.steps, s.isClear g = true)
    (h : a.render g = b.render g) :
    a.steps.flatMap (Step.marks g) = b.steps.flatMap (Step.marks g) := by
  have hsteps : ∀ c : Analysis, c.steps.flatMap (renderStep g true) =
      (c.steps.flatMap (Step.marks g)).flatMap Mark.text := by
    intro c
    rw [List.flatMap_assoc]
    exact List.flatMap_congr fun s _ => s.renderStep_eq g
  rw [render, render, hroot, List.append_cancel_left_eq, hsteps, hsteps] at h
  refine Mark.eq_of_flatMap_text_eq ?_ ?_ h
  · intro m hm
    obtain ⟨s, hs, hm⟩ := List.mem_flatMap.mp hm
    exact List.all_eq_true.mp (ha s hs) m hm
  · intro m hm
    obtain ⟨s, hs, hm⟩ := List.mem_flatMap.mp hm
    exact List.all_eq_true.mp (hb s hs) m hm

end Analysis

end TurkishMorphology
