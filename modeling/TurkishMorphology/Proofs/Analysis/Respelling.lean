import TurkishMorphology.Grammar.Turkish
import TurkishMorphology.Proofs.Analysis.Forcing
import TurkishMorphology.Proofs.Phonetics.Sound
/-!
# Analyses with a root in another spelling

If a root is spelled otherwise but sounds alike, the steps after it can be taken as before. The
only thing that looks at the spelling is the condition that a root be unaltered. The forms of
Turkish ask for such a root to be left alone, never for one, so they let pass whatever they let
pass before.

## Main definitions

- `Analysis.respelled` — an analysis with another spelling of its root
- `Analysis.Respellable` — analyses whose root can be spelled in a given way
- `Condition.spares` — conditions that ask for no unaltered root

## Main statements

- `Analysis.extend_respelled` — respelling before a step and after it
- `Analysis.Allows.respelled` — the gates let a respelled analysis pass
- `Forcing.takeSteps_respelled` — forced steps of a respelled analysis
-/

namespace TurkishMorphology

namespace Analysis

variable {g : Grammar} {a b : Analysis} {s : Word} {r : Realization} {target : StateId}

/-- The same analysis with its root in another spelling. -/
def respelled (a : Analysis) (s : Word) : Analysis :=
  { a with root := a.root.withSurface s, surface := s ++ a.added }

/-- The root of the analysis can be spelled as `s`: that sounds alike and is not the lemma root. -/
structure Respellable (s : Word) (a : Analysis) : Prop where
  sounds : Word.SoundsLike a.root.surface s
  begins : a.surface = a.root.surface ++ a.added
  altered : (a.root.withSurface s).isUnaltered = false

theorem added_extend (h : a.surface = a.root.surface ++ a.added) :
    (a.extend g r target).added = a.added ++ r.text := by
  rw [added, root_extend, surface_extend]
  conv_lhs => rw [h, List.append_assoc, List.drop_left]

theorem Respellable.extend (h : a.Respellable s) : (a.extend g r target).Respellable s where
  sounds := h.sounds
  begins := by
    rw [added_extend h.begins, surface_extend, root_extend, ← List.append_assoc, ← h.begins]
  altered := h.altered

/-- Steps along the grammar add to the surface and leave the root as it is. -/
theorem Respellable.takes (h : a.Respellable s) (hab : Relation.ReflTransGen (Takes g) a b) :
    b.Respellable s :=
  invariant_of_takes hab h fun _ _ _ hc _ _ => hc.extend

/-- What is read off the surface depends on the sounds of the root only. -/
theorem phoneticView_respelled {root : Root} (hs : Word.SoundsLike root.surface s) (added : Word)
    (lexeme : LexemeAttributes) :
    phoneticView (root.withSurface s) (s ++ added) lexeme =
      phoneticView root (root.surface ++ added) lexeme := by
  have hsounds : Word.SoundsLike (root.surface ++ added) (s ++ added) :=
    hs.append (Word.soundsLike_refl added)
  simp only [phoneticView, Root.withSurface, List.drop_left, hsounds.ofSurface_eq]

/-- It is the same to respell the root before a step and after it. -/
theorem extend_respelled (h : a.Respellable s) :
    (a.respelled s).extend g r target = (a.extend g r target).respelled s := by
  have hsurface : (a.respelled s).surface ++ r.text = s ++ (a.added ++ r.text) :=
    List.append_assoc ..
  have hview : ∀ lexeme, phoneticView (a.root.withSurface s) (s ++ (a.added ++ r.text)) lexeme =
      phoneticView a.root (a.surface ++ r.text) lexeme := by
    intro lexeme
    rw [phoneticView_respelled h.sounds, ← List.append_assoc, ← h.begins]
  have hadded : (a.extend g r target).added = a.added ++ r.text := added_extend h.begins
  unfold respelled
  rw [hadded]
  simp only [extend, ← hsurface] at hview ⊢
  simp only [← hview]
  rfl

theorem respelled_surface_soundsLike (h : a.Respellable s) :
    Word.SoundsLike a.surface (a.respelled s).surface := by
  rw [h.begins]
  exact h.sounds.append (Word.soundsLike_refl _)

end Analysis

namespace Condition

variable {a : Analysis} {s : Word}

/-- Whether the condition asks for no unaltered root: it speaks of one under a negation only, or
    under none if `negated` says that it is negated itself. -/
def spares (negated : Bool) : Condition → Bool
  | .rootUnaltered => negated
  | .both p q => p.spares negated && q.spares negated
  | .either p q => p.spares negated && q.spares negated
  | .negation p => p.spares !negated
  | _ => true

/-- A condition that asks for no unaltered root still holds when the root is respelled. -/
theorem holds_respelled (h : a.Respellable s) (c : Condition) :
    (c.spares false = true → c.holds a = true → c.holds (a.respelled s) = true) ∧
      (c.spares true = true → c.holds (a.respelled s) = true → c.holds a = true) := by
  -- A negation exchanges the two directions, so one induction proves both.
  induction c with
  | rootUnaltered =>
    refine ⟨fun hspares => (by cases hspares), fun _ hholds => ?_⟩
    rw [holds, show (a.respelled s).root = a.root.withSurface s from rfl, h.altered] at hholds
    cases hholds
  | both p q hp hq =>
    simp only [spares, holds, Bool.and_eq_true]
    exact ⟨fun hs hh => ⟨hp.1 hs.1 hh.1, hq.1 hs.2 hh.2⟩,
      fun hs hh => ⟨hp.2 hs.1 hh.1, hq.2 hs.2 hh.2⟩⟩
  | either p q hp hq =>
    simp only [spares, holds, Bool.and_eq_true, Bool.or_eq_true]
    exact ⟨fun hs hh => hh.imp (hp.1 hs.1) (hq.1 hs.2),
      fun hs hh => hh.imp (hp.2 hs.1) (hq.2 hs.2)⟩
  | negation p hp =>
    simp only [spares, holds, Bool.not_eq_true', ← Bool.not_eq_true]
    exact ⟨fun hs hh hr => hh (hp.2 hs hr), fun hs hh hr => hh (hp.1 hs hr)⟩
  | always => exact ⟨fun _ hh => hh, fun _ hh => hh⟩
  | never => exact ⟨fun _ hh => hh, fun _ hh => hh⟩
  | after | afterAny | afterDerivation | followedBy | lexemeHas | rootHas | rootAmong | derived
  | fresh | unspoken => exact ⟨fun _ hh => hh, fun _ hh => hh⟩

theorem holdsIfAny_respelled (h : a.Respellable s) {c : Option Condition}
    (hspares : c.all (spares false) = true) (hholds : holdsIfAny c a = true) :
    holdsIfAny c (a.respelled s) = true := by
  cases c with
  | none => rfl
  | some c => exact (holds_respelled h c).1 hspares hholds

end Condition

/-- Whether none of the guards asks for an unaltered root. -/
def Guards.spare (guards : Guards) : Bool :=
  guards.before.all (Condition.spares false) && guards.next.all (Condition.spares false)
    && guards.leaving.all (Condition.spares false)

/-- No form asks for an unaltered root. -/
def Grammar.SparesUnaltered (g : Grammar) : Prop := ∀ id, (g.form id).guards.spare = true

theorem Turkish.sparesUnaltered : Turkish.grammar.SparesUnaltered := by
  have hforms : Turkish.grammar.forms.all (fun f => f.guards.spare) = true := by decide +kernel
  intro id
  rw [Grammar.form, Array.getD_eq_getD_getElem?]
  cases hform : Turkish.grammar.forms[id.index]? with
  | none => rfl
  | some f => exact Array.all_eq_true'.mp hforms f (Array.mem_of_getElem? hform)

namespace Analysis

variable {g : Grammar} {a b : Analysis} {s : Word} {r : Realization} {target : StateId}

/-- A stop at the end must be voiced no matter how the root is spelled. -/
theorem mayFollow_respelled (h : a.Respellable s) (text : Word) :
    (a.respelled s).mayFollow text = a.mayFollow text := by
  have hvoice : (a.respelled s).mustVoice = a.mustVoice := by
    unfold mustVoice
    rcases (respelled_surface_soundsLike h).getLast? with ⟨hv, hw⟩ | ⟨c, d, hv, hw, hcd⟩
    · rw [hv, hw]
      rfl
    · rw [hv, hw, Option.any_some, Option.any_some, hcd.isVoicelessStop_eq]
      rfl
  rw [mayFollow, mayFollow, hvoice]

/-- The gates let a respelled analysis pass where they let the analysis pass. -/
theorem Allows.respelled (hg : g.SparesUnaltered) (h : a.Respellable s)
    (hallows : a.Allows g r target) : (a.respelled s).Allows g r target where
  groupFree := hallows.groupFree
  notRepeated := hallows.notRepeated
  before := by
    have hspare := hg r.form
    simp only [Guards.spare, Bool.and_eq_true] at hspare
    exact Condition.holdsIfAny_respelled h hspare.1.1 hallows.before
  expected := hallows.expected
  follows := by
    rw [mayFollow_respelled h]
    exact hallows.follows
  input := hallows.input
  next t ht := by
    have hspare := hg t.realization.form
    simp only [Guards.spare, Bool.and_eq_true] at hspare
    rw [extend_respelled h]
    exact Condition.holdsIfAny_respelled h.extend hspare.1.2 (hallows.next t ht)
  leaving hd t ht := by
    have hspare := hg t.realization.form
    simp only [Guards.spare, Bool.and_eq_true] at hspare
    rw [extend_respelled h]
    exact Condition.holdsIfAny_respelled h.extend hspare.2 (hallows.leaving hd t ht)

theorem takeContinuation_respelled (hg : g.SparesUnaltered) (h : a.Respellable s)
    {c : Continuation} (hb : a.takeContinuation g c = .ok b) :
    (a.respelled s).takeContinuation g c = .ok (b.respelled s) := by
  obtain ⟨hallows, rfl⟩ := takeContinuation_eq_ok_iff.mp hb
  exact takeContinuation_eq_ok_iff.mpr ⟨hallows.respelled hg h, (extend_respelled h).symm⟩

theorem takeForm_respelled (hg : g.SparesUnaltered) (h : a.Respellable s) {id : FormId}
    (hb : a.takeForm g id target = .ok b) :
    (a.respelled s).takeForm g id target = .ok (b.respelled s) := by
  obtain ⟨happ, hstarts, hallows, rfl⟩ := takeForm_eq_ok_iff.mp hb
  exact takeForm_eq_ok_iff.mpr ⟨happ, hstarts, hallows.respelled hg h, (extend_respelled h).symm⟩

end Analysis

/-- Forced steps that fit the input after an analysis fit it after the respelled one. -/
theorem Forcing.takeSteps_respelled {g : Grammar} {a b : Analysis} {s : Word}
    (hg : g.SparesUnaltered) (h : a.Respellable s) {steps : List ForcedStep}
    (hb : takeSteps g a steps = .ok (some b)) :
    takeSteps g (a.respelled s) steps = .ok (some (b.respelled s)) := by
  induction steps generalizing a with
  | nil =>
    cases hb
    rfl
  | cons step rest ih =>
    obtain ⟨c, hc, hb⟩ := takeSteps_cons_eq_ok_iff.mp hb
    refine takeSteps_cons_eq_ok_iff.mpr ⟨_, Analysis.takeForm_respelled hg h hc, ih ?_ hb⟩
    obtain ⟨-, -, -, rfl⟩ := Analysis.takeForm_eq_ok_iff.mp hc
    exact h.extend

end TurkishMorphology
