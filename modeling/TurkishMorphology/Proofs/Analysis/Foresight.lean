import TurkishMorphology.Proofs.Analysis.Render
import Mathlib.Data.List.Pairwise
/-!
# What is printed tells the way

An analysis takes one of several ways on from a state, and some print nothing, or the same as
others: the way to the end of a noun and the way to a copula, or the case `Nom` that inflection ends
with and the one that derivations begin with. But what is printed of the next steps is never the
same. So the marks of steps along the grammar, from a given state to a terminal one, tell the steps.

## Main definitions

- `Incomparable` — lists of which neither begins with the other
- `Sign`, `Grammar.signs` — what is printed of a way on, up to the text
- `Grammar.forecasts` — what can be printed of the next steps from a state
- `Grammar.TellsApart` — ways on differ in what is printed of them and of the next steps
- `Step.Along` — steps along the grammar

## Main statements

- `Grammar.exists_forecast` — what is printed of steps begins with a forecast
- `Step.choice_eq_of_signs_eq`, `Step.eq_of_marks_eq` — the marks tell the steps
- `Turkish.tellsApart` — in Turkish two more steps are enough
-/

namespace TurkishMorphology

/-- Neither list begins with the other. -/
def Incomparable {α : Type} (xs ys : List α) : Prop := ¬ xs <+: ys ∧ ¬ ys <+: xs

namespace Incomparable

variable {α β : Type} {xs ys : List α}

instance [DecidableEq α] : Decidable (Incomparable xs ys) :=
  inferInstanceAs (Decidable (¬ xs <+: ys ∧ ¬ ys <+: xs))

theorem symm (h : Incomparable xs ys) : Incomparable ys xs := And.symm h

/-- Lists that begin with incomparable lists differ. -/
theorem ne_of_isPrefix (h : Incomparable xs ys) {zs ws : List α} (hx : xs <+: zs)
    (hy : ys <+: ws) : zs ≠ ws := by
  rintro rfl
  exact (List.prefix_or_prefix_of_prefix hx hy).elim h.1 h.2

theorem mono (h : Incomparable xs ys) {zs ws : List α} (hx : xs <+: zs) (hy : ys <+: ws) :
    Incomparable zs ws :=
  ⟨fun hzw => h.ne_of_isPrefix (hx.trans hzw) hy rfl,
    fun hwz => h.ne_of_isPrefix hx (hy.trans hwz) rfl⟩

theorem of_flatMap {f : α → List β} (h : Incomparable (xs.flatMap f) (ys.flatMap f)) :
    Incomparable xs ys := by
  constructor
  · rintro ⟨zs, rfl⟩
    exact h.1 (by simp)
  · rintro ⟨zs, rfl⟩
    exact h.2 (by simp)

end Incomparable

/-- What is printed of a way on, up to the text: a name, and a template if letters are added. -/
abbrev Sign := Word × Option Word

def Mark.sign (m : Mark) : Sign := (m.name, m.spoken.map Prod.fst)

namespace Grammar

/-- The ways on from a state: an edge and a form of its suffix. -/
def choicesFrom (g : Grammar) (s : StateId) : List (Edge × FormId) :=
  (g.edgesFrom s).flatMap fun e => (g.suffix e.suffix).forms.map fun id => (e, id)

def signs (g : Grammar) (c : Edge × FormId) : List Sign :=
  (if (g.state c.1.source).isDerivational then [((g.state c.1.target).pos.tag.toList, none)]
    else []) ++
    match (g.suffix c.1.suffix).printed with
    | none => []
    | some name =>
      [(name.toList,
        if (g.form c.2).template.isSpoken then some (g.form c.2).template.text else none)]

/-- What can be printed of the next steps from a state, of which at most the given number is looked
    at. After it a list may go on, unless `none` says that it has ended in a terminal state. -/
def forecasts (g : Grammar) : Nat → StateId → List (List (Option Sign))
  | 0, _ => [[]]
  | n + 1, s =>
    if (g.state s).isTerminal then [[none]]
    else (g.choicesFrom s).flatMap fun c =>
      (forecasts g n c.1.target).map fun f => (g.signs c).map some ++ f

/-- What is printed of two ways on and of the given number of steps after them differs. -/
def Diverge (g : Grammar) (n : Nat) (c d : Edge × FormId) : Prop :=
  ∀ u ∈ g.forecasts n c.1.target, ∀ v ∈ g.forecasts n d.1.target,
    Incomparable ((g.signs c).map some ++ u) ((g.signs d).map some ++ v)

instance (g : Grammar) (n : Nat) (c d : Edge × FormId) : Decidable (g.Diverge n c d) :=
  inferInstanceAs (Decidable (∀ u ∈ g.forecasts n c.1.target, ∀ v ∈ g.forecasts n d.1.target,
    Incomparable ((g.signs c).map some ++ u) ((g.signs d).map some ++ v)))

/-- What is printed of two ways on and of some number of steps after them differs. -/
def TellApart (g : Grammar) (bound : Nat) (c d : Edge × FormId) : Prop :=
  ∃ n ∈ List.range (bound + 1), g.Diverge n c d

instance (g : Grammar) (bound : Nat) : DecidableRel (g.TellApart bound) := fun c d =>
  inferInstanceAs (Decidable (∃ n ∈ List.range (bound + 1), g.Diverge n c d))

instance (g : Grammar) (bound : Nat) : Std.Symm (g.TellApart bound) where
  symm _ _ h := by
    obtain ⟨n, hn, hall⟩ := h
    exact ⟨n, hn, fun u hu v hv => (hall v hv u hu).symm⟩

/-- The ways on from each state can be told apart by what is printed of the next steps. -/
def TellsApart (g : Grammar) (bound : Nat) : Prop :=
  ∀ s ∈ g.stateIds, (g.choicesFrom s).Pairwise (g.TellApart bound)

/-- Every form adds no letter in any context, or it adds one in all and is printed. -/
def ShowsTexts (g : Grammar) : Prop :=
  ∀ e ∈ g.edges, ∀ id ∈ (g.suffix e.suffix).forms, (g.form id).template.isMute = true ∨
    (g.form id).template.isSpoken = true ∧ (g.suffix e.suffix).printed.isSome = true

end Grammar

namespace Step

/-- The way on that a step has taken. -/
def choice (s : Step) : Edge × FormId :=
  (⟨s.source, s.realization.suffix, s.target⟩, s.realization.form)

/-- Steps along the grammar, the contexts being given by the steps taken before. -/
def Along (g : Grammar) (context : List Step → PhoneticAttributes) (steps : List Step) : Prop :=
  Each (fun before s => s.Follows g (context before) ∧
    s.derives = (g.state s.source).isDerivational) steps

/-- What is printed of steps up to their texts, and the end. -/
def signs (g : Grammar) (steps : List Step) : List (Option Sign) :=
  (steps.flatMap (marks g)).map (fun m => some m.sign) ++ [none]

theorem each_cons {P : List Step → Step → Prop} {s : Step} {rest : List Step}
    (h : Each P (s :: rest)) : P [] s ∧ Each (fun before t => P (s :: before) t) rest :=
  ⟨h [] s rest rfl, fun before t after hrest => h (s :: before) t after (by rw [hrest]; rfl)⟩

end Step

variable {g : Grammar} {context : List Step → PhoneticAttributes} {bound : Nat}
  {source target target' : StateId} {s t : Step} {steps xs ys : List Step}

namespace Grammar

theorem choice_mem_choicesFrom {a : PhoneticAttributes} (h : s.Follows g a) :
    s.choice ∈ g.choicesFrom s.source :=
  List.mem_flatMap.mpr
    ⟨_, mem_edgesFrom_iff.mpr ⟨h.edge, rfl⟩, List.mem_map.mpr ⟨_, h.form, rfl⟩⟩

/-- What is printed of a step up to its text is what is printed of the way on that it takes. -/
theorem ShowsTexts.map_sign_marks (hg : g.ShowsTexts) {a : PhoneticAttributes}
    (h : s.Follows g a) (hderives : s.derives = (g.state s.source).isDerivational) :
    (s.marks g).map Mark.sign = g.signs s.choice := by
  have hspoken : s.realization.text.hasAlphanumeric =
      (g.form s.realization.form).template.isSpoken := by
    rcases hg _ h.edge _ h.form with hmute | ⟨hspoken, -⟩
    · have hsilent := (h.spelled.text_of_isMute hmute).2.2
      cases hform : (g.form s.realization.form).template.isSpoken with
      | true => rw [h.spelled.hasAlphanumeric_text hform] at hsilent; cases hsilent
      | false => exact hsilent
    · rw [hspoken, h.spelled.hasAlphanumeric_text hspoken]
  rw [Step.marks, signs, Step.choice, hderives, hspoken, List.map_append]
  congr 1
  · split <;> rfl
  · cases (g.suffix s.realization.suffix).printed with
    | none => rfl
    | some name =>
      dsimp only
      split <;> rfl

theorem ShowsTexts.signs_cons (hg : g.ShowsTexts) {a : PhoneticAttributes} (h : s.Follows g a)
    (hderives : s.derives = (g.state s.source).isDerivational) (rest : List Step) :
    Step.signs g (s :: rest) = (g.signs s.choice).map some ++ Step.signs g rest := by
  rw [← hg.map_sign_marks h hderives, Step.signs, Step.signs, List.flatMap_cons, List.map_append,
    List.map_map, List.append_assoc]
  rfl

/-- What is printed of steps to a terminal state begins with one of the forecasts. -/
theorem exists_forecast (hg : g.ShowsTexts) (hrests : g.RestsAtTerminals)
    (hsteps : Step.Along g context steps) (hpath : Step.Path source steps target)
    (hend : (g.state target).isTerminal = true) (n : Nat) :
    ∃ f ∈ g.forecasts n source, f <+: Step.signs g steps := by
  induction n generalizing source context steps with
  | zero => exact ⟨[], List.mem_singleton_self _, List.nil_prefix⟩
  | succ n ih =>
    rw [forecasts]
    cases steps with
    | nil =>
      obtain rfl : source = target := hpath
      rw [if_pos hend]
      exact ⟨[none], List.mem_singleton_self _, List.prefix_rfl⟩
    | cons s rest =>
      obtain ⟨⟨hfollows, hderives⟩, hrest⟩ := Step.each_cons hsteps
      obtain ⟨rfl, hpath⟩ := hpath
      have hopen : (g.state s.source).isTerminal = false := hrests _ hfollows.edge
      obtain ⟨f, hf, hprefix⟩ := ih hrest hpath
      rw [if_neg (by rw [hopen]; exact Bool.false_ne_true), hg.signs_cons hfollows hderives]
      refine ⟨(g.signs s.choice).map some ++ f, ?_, (List.prefix_append_right_inj _).mpr hprefix⟩
      exact List.mem_flatMap.mpr
        ⟨_, choice_mem_choicesFrom hfollows, List.mem_map.mpr ⟨f, hf, rfl⟩⟩

end Grammar

namespace Step

/-- A step is told by the way on that it takes and its marks. -/
theorem eq_of_choice_eq (hg : g.ShowsTexts) {a : PhoneticAttributes} (hs : s.Follows g a)
    (ht : t.Follows g a) (hderives : s.derives = t.derives) (hchoice : s.choice = t.choice)
    (hmarks : s.marks g = t.marks g) : s = t := by
  obtain ⟨source, r, target, derives⟩ := s
  obtain ⟨source', r', target', derives'⟩ := t
  simp only [choice, Prod.mk.injEq, Edge.mk.injEq] at hchoice
  obtain ⟨⟨rfl, hsuffix, rfl⟩, hform⟩ := hchoice
  obtain rfl : derives = derives' := hderives
  have htext : r.text = r'.text := by
    rcases hg _ hs.edge _ hs.form with hmute | ⟨hspoken, hprinted⟩
    · have hplain : r.plain = r'.plain := by
        have hr := hs.spelled.plain
        have hr' := ht.spelled.plain
        dsimp only at hr hr'
        rw [hr, hr', hform]
      have hmute' := hmute
      dsimp only at hmute'
      rw [hform] at hmute'
      rw [(hs.spelled.text_of_isMute hmute).1, (ht.spelled.text_of_isMute hmute').1]
      exact hplain
    · obtain ⟨name, hname⟩ := Option.isSome_iff_exists.mp hprinted
      have hspoken' := hspoken
      dsimp only at hspoken' hname
      rw [hform] at hspoken'
      have hr := hs.spelled.hasAlphanumeric_text hspoken
      have hr' := ht.spelled.hasAlphanumeric_text hspoken'
      dsimp only at hr hr'
      simp only [marks, ← hsuffix, hname, hr, hr', if_true, List.append_cancel_left_eq,
        List.cons.injEq, Mark.mk.injEq, Option.some.injEq, Prod.mk.injEq] at hmarks
      exact hmarks.1.2.2
  obtain rfl : r = r' := hs.spelled.eq_of_text_eq ht.spelled hform hsuffix htext
  rfl

/-- No step leaves a terminal state. -/
theorem Along.isTerminal_eq_false (hrests : g.RestsAtTerminals) {rest : List Step}
    (h : Along g context (s :: rest)) : (g.state s.source).isTerminal = false :=
  hrests _ (each_cons h).1.1.edge

/-- Steps from one state to terminal ones take the same way on if what is printed of them is the
    same. -/
theorem choice_eq_of_signs_eq (hg : g.ShowsTexts) (hrests : g.RestsAtTerminals)
    (happart : g.TellsApart bound) (hsources : ∀ e ∈ g.edges, e.source ∈ g.stateIds)
    (hxs : Along g context (s :: xs)) (hys : Along g context (t :: ys))
    (hsource : s.source = t.source)
    (hxpath : Path s.target xs target) (hypath : Path t.target ys target')
    (hxend : (g.state target).isTerminal = true) (hyend : (g.state target').isTerminal = true)
    (hsigns : signs g (s :: xs) = signs g (t :: ys)) : s.choice = t.choice := by
  obtain ⟨⟨hs, hsderives⟩, hxs⟩ := each_cons hxs
  obtain ⟨⟨ht, htderives⟩, hys⟩ := each_cons hys
  by_contra hne
  -- Otherwise what is printed begins with forecasts that differ.
  have hchoices := Grammar.choice_mem_choicesFrom ht
  rw [← hsource] at hchoices
  obtain ⟨n, -, hforecasts⟩ := (happart _ (hsources _ hs.edge)).forall
    (Grammar.choice_mem_choicesFrom hs) hchoices hne
  obtain ⟨u, hu, hxu⟩ := Grammar.exists_forecast hg hrests hxs hxpath hxend n
  obtain ⟨v, hv, hyv⟩ := Grammar.exists_forecast hg hrests hys hypath hyend n
  refine (hforecasts u hu v hv).ne_of_isPrefix
    ((List.prefix_append_right_inj _).mpr hxu) ((List.prefix_append_right_inj _).mpr hyv) ?_
  rw [← hg.signs_cons hs hsderives, ← hg.signs_cons ht htderives, hsigns]

/-- Steps along the grammar, from one state to terminal ones and in one context, are told by their
    marks. -/
theorem eq_of_marks_eq (hg : g.ShowsTexts) (hrests : g.RestsAtTerminals)
    (happart : g.TellsApart bound) (hsources : ∀ e ∈ g.edges, e.source ∈ g.stateIds)
    (hxs : Along g context xs) (hys : Along g context ys)
    (hxpath : Path source xs target) (hypath : Path source ys target')
    (hxend : (g.state target).isTerminal = true) (hyend : (g.state target').isTerminal = true)
    (hmarks : xs.flatMap (marks g) = ys.flatMap (marks g)) : xs = ys := by
  induction xs generalizing source context ys with
  | nil =>
    obtain rfl : source = target := hxpath
    cases ys with
    | nil => rfl
    | cons y ys =>
      obtain ⟨rfl, -⟩ := hypath
      rw [hys.isTerminal_eq_false hrests] at hxend
      cases hxend
  | cons x xs ih =>
    cases ys with
    | nil =>
      obtain rfl : source = target' := hypath
      obtain ⟨rfl, -⟩ := hxpath
      rw [hxs.isTerminal_eq_false hrests] at hyend
      cases hyend
    | cons y ys =>
      obtain ⟨hxsource, hxpath⟩ := hxpath
      obtain ⟨hysource, hypath⟩ := hypath
      have hsource : x.source = y.source := hxsource.trans hysource.symm
      have hsigns : signs g (x :: xs) = signs g (y :: ys) := by rw [signs, signs, hmarks]
      have hchoice := choice_eq_of_signs_eq hg hrests happart hsources hxs hys hsource hxpath
        hypath hxend hyend hsigns
      obtain ⟨⟨hx, hxderives⟩, hxs⟩ := each_cons hxs
      obtain ⟨⟨hy, hyderives⟩, hys⟩ := each_cons hys
      have hlength : (x.marks g).length = (y.marks g).length := by
        have hmap := hg.map_sign_marks hx hxderives
        rw [hchoice, ← hg.map_sign_marks hy hyderives] at hmap
        simpa using congrArg List.length hmap
      rw [List.flatMap_cons, List.flatMap_cons] at hmarks
      obtain ⟨hmark, hrest⟩ := List.append_inj hmarks hlength
      have hderives : x.derives = y.derives := by rw [hxderives, hyderives, hsource]
      obtain rfl := eq_of_choice_eq hg hx hy hderives hchoice hmark
      rw [ih hxs hys hxpath hypath hrest]

end Step

namespace Turkish

theorem tellsApart : grammar.TellsApart 2 := by
  unfold Grammar.TellsApart
  decide +kernel

theorem showsTexts : grammar.ShowsTexts := by
  unfold Grammar.ShowsTexts
  decide +kernel

theorem printsClearly : grammar.PrintsClearly := by
  unfold Grammar.PrintsClearly
  decide +kernel

end Turkish

end TurkishMorphology
