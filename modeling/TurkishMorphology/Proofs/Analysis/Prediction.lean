import TurkishMorphology.Proofs.Analysis.Place
import TurkishMorphology.Proofs.Analysis.Run
import TurkishMorphology.Proofs.Grammar.Exploration
import TurkishMorphology.Proofs.Grammar.Silence
/-!
# What a paradigm says of the attributes

A continuation of the paradigm says which attributes the word has afterwards. That was computed from
the attributes before and the text alone, long before there was a word. An analysis knows the word:
as soon as a letter is added it reads its attributes off the whole surface, and until then it keeps
those of its root. The two agree along every walk from a root that has the attributes of its own
surface. Texts without letters, such as an apostrophe, are no exception, since only states in which
roots begin are left by them.

## Main definitions

- `Step.attributesAfter` — the attributes after steps, computed one step after the other
- `Analysis.IsWalk` — the analyses that accepted continuations lead through, each from the cell of
  the one before it

## Main statements

- `Analysis.attributesAfter_eq` — computed step by step, the attributes are those of the word with
  all that was added
- `Analysis.attributes_eq` — an analysis has those of its surface
- `Analysis.attributes_extend_eq_after` — the two agree step by step
- `Analysis.attributes_eq_of_isWalk` — the two agree along walks
-/

namespace TurkishMorphology

/-- The attributes after steps, each of which changes those before it by what it adds. -/
def Step.attributesAfter (start : PhoneticAttributes) (steps : List Step) : PhoneticAttributes :=
  steps.foldl (fun before s => Phonetics.after before s.realization.text) start

/-- Steps that add a letter or a digit are not blank throughout. -/
theorem Step.all_isBlank_eq_false {steps : List Step}
    (h : (Step.texts steps).hasAlphanumeric = true) : steps.all Step.isBlank = false := by
  rw [Step.texts, Word.hasAlphanumeric, List.any_flatMap, List.any_eq_true] at h
  obtain ⟨s, hs, hletters⟩ := h
  rw [List.all_eq_false]
  refine ⟨s, hs, ?_⟩
  rw [Step.isBlank, Realization.isBlank, Word.isBlank_eq_false hletters]
  exact Bool.false_ne_true

namespace Analysis

variable {g : Grammar} {root : Root} {state : StateId} {rest text : Word} {a b : Analysis}
  {r : Realization} {target : StateId}

/-- An analysis with steps is in a state that an edge leads to. -/
theorem steps_eq_nil_or_exists_edge
    (ha : Relation.ReflTransGen (Takes g) (begin root state rest) a) :
    a.steps = [] ∨ ∃ e ∈ g.edges, e.target = a.state := by
  cases ha with
  | refl => exact .inl rfl
  | tail _ hba =>
    obtain ⟨r, target, hfollows, -, rfl⟩ := hba
    exact .inr ⟨_, hfollows.edge, rfl⟩

/-- Computed step by step from those of a word, the attributes are those of the word with all that
    was added; as long as no letter is, they are those of the word alone. -/
theorem attributesAfter_eq (hg : g.SpeaksInside) (htext : text ≠ [])
    (ha : Relation.ReflTransGen (Takes g) (begin root state rest) a) :
    Step.attributesAfter (Phonetics.ofWord text) a.steps =
      if (Step.texts a.steps).hasAlphanumeric then Phonetics.ofWord (text ++ Step.texts a.steps)
      else Phonetics.ofWord text := by
  induction ha with
  | refl => rfl
  | @tail b c hab hbc ih =>
    obtain ⟨r, target, hfollows, -, rfl⟩ := hbc
    have hsnoc : Step.attributesAfter (Phonetics.ofWord text) (b.steps ++ [b.nextStep g r target]) =
        Phonetics.after (Step.attributesAfter (Phonetics.ofWord text) b.steps) r.text := by
      simp [Step.attributesAfter, nextStep]
    have htexts : Step.texts (b.steps ++ [b.nextStep g r target]) =
        Step.texts b.steps ++ r.text := by
      simp [nextStep]
    rw [steps_extend, hsnoc, htexts, ih, Word.hasAlphanumeric_append]
    cases hr : r.text.hasAlphanumeric with
    | true =>
      rw [Bool.or_true, if_pos rfl]
      cases hbefore : (Step.texts b.steps).hasAlphanumeric with
      | true =>
        rw [if_pos rfl, Phonetics.after_ofWord (List.append_ne_nil_of_left_ne_nil htext _) hr,
          List.append_assoc]
      | false =>
        -- What was added before has no letters, and so no vowel to harmonise with.
        have hnone : (Step.texts b.steps).lastVowel? = none := by
          rw [Word.lastVowel?_eq_none_iff, ← Bool.not_eq_true]
          intro hvowel
          rw [Word.hasAlphanumeric_of_hasVowel hvowel] at hbefore
          cases hbefore
        have hne : r.text ≠ [] := Word.ne_nil_of_hasAlphanumeric hr
        rw [if_neg Bool.false_ne_true, Phonetics.after_ofWord htext hr, ← List.append_assoc]
        refine Phonetics.ofWord_append_congr hne (.inl ?_)
        rw [Word.lastVowel?_append, hnone, Option.none_or]
    | false =>
      rw [Bool.or_false, Phonetics.after_eq_of_hasAlphanumeric_eq_false hr]
      rcases steps_eq_nil_or_exists_edge hab with hnil | ⟨e, he, hsource⟩
      · rw [hnil]
        rfl
      · -- Only states in which roots begin are left by a text without letters.
        have hnil : r.text = [] := by
          by_contra hne
          have hletters : r.text.hasAlphanumeric = true :=
            hg.hasAlphanumeric_text hfollows he hsource hne
          rw [hr] at hletters
          cases hletters
        rw [hnil, List.append_nil]

/-- Harmony is inverted only as long as nothing visible is added. -/
theorem contains_inverseHarmony_lexemeView {lexeme : LexemeAttributes} {steps : List Step}
    (h : steps.all Step.isBlank = false) (s : State) :
    (lexemeView lexeme steps s).contains .inverseHarmony = false := by
  rw [lexemeView, if_neg (by simp [h])]
  split <;> decide

/-- An analysis has the attributes of its surface; as long as no letter is added, it has those of
    its root. -/
theorem attributes_eq (ha : Relation.ReflTransGen (Takes g) (begin root state rest) a) :
    a.attributes =
      if (Step.texts a.steps).hasAlphanumeric then
        Phonetics.ofWord (root.surface ++ Step.texts a.steps)
      else root.attributes := by
  have htrace := (isTrace_begin (g := g) root state rest).reflTransGen ha
  have hsame : a.root = root := root_eq_of_takes ha
  have hsurface : a.surface = root.surface ++ Step.texts a.steps := hsame ▸ htrace.surface
  cases ha with
  | refl => rfl
  | @tail b _ _ hba =>
    obtain ⟨r, target, -, -, rfl⟩ := hba
    have hview : (b.extend g r target).attributes =
        phoneticView root (b.extend g r target).surface (b.extend g r target).lexemeAttributes :=
      hsame ▸ rfl
    rw [hview, hsurface, phoneticView]
    simp only [List.drop_left]
    cases hletters : (Step.texts (b.extend g r target).steps).hasAlphanumeric with
    | true =>
      have hharmony : (b.extend g r target).lexemeAttributes.contains .inverseHarmony = false :=
        contains_inverseHarmony_lexemeView (Step.all_isBlank_eq_false hletters) _
      simp only [Word.isBlank_eq_false hletters, Bool.not_true, Bool.or_self, Bool.false_eq_true,
        if_false, if_true, Phonetics.ofSurface, hharmony]
    | false =>
      simp only [Bool.not_false, Bool.or_true, Bool.false_eq_true, if_true, if_false]

/-- After a root with the attributes of its surface, a step changes the attributes by what it adds
    and nothing else. -/
theorem attributes_extend_eq_after (hg : g.SpeaksInside) (hsurface : root.surface ≠ [])
    (hroot : root.attributes = Phonetics.ofWord root.surface)
    (ha : Relation.ReflTransGen (Takes g) (begin root state rest) a)
    (hab : a.Takes g (a.extend g r target)) :
    (a.extend g r target).attributes = Phonetics.after a.attributes r.text := by
  have hsame : ∀ {b}, Relation.ReflTransGen (Takes g) (begin root state rest) b →
      b.attributes = Step.attributesAfter (Phonetics.ofWord root.surface) b.steps := by
    intro b hb
    rw [attributes_eq hb, attributesAfter_eq hg hsurface hb, hroot]
  rw [hsame ha, hsame (ha.tail hab), steps_extend, Step.attributesAfter, List.foldl_append]
  rfl

/-- A run from where a root begins that makes its moves along a paradigm: continuation `i` is in the
    cell of the analysis before it. -/
structure IsWalk (g : Grammar) (p : Paradigm) (root : Root) (ways : List Continuation)
    (c : Nat → Analysis) : Prop where
  begins : ∃ state rest, g.rootState root = .ok state ∧ c 0 = begin root state rest
  offered : ∀ i w, ways[i]? = some w →
    ∃ cell, p.cell? (c i).state (c i).attributes = some cell ∧ w ∈ cell.continuations
  accepted : ∀ i w, ways[i]? = some w → (c i).takeContinuation g w = .ok (c (i + 1))

namespace IsWalk

variable {ways : List Continuation} {c : Nat → Analysis} {i : Nat} {w : Continuation}

/-- A continuation of a walk is one of the grammar in the context of the analysis before it. -/
theorem mem_continuations (hg : g.IsClosed) (h : IsWalk g (.ofGrammar g) root ways c)
    (hw : ways[i]? = some w) : w ∈ g.continuations (c i).state (c i).attributes := by
  obtain ⟨cell, hcell, hmem⟩ := h.offered i w hw
  obtain ⟨-, -, rfl⟩ := (Paradigm.cell?_ofGrammar_eq_some_iff hg).mp hcell
  exact hmem

theorem takes (hg : g.IsClosed) (h : IsWalk g (.ofGrammar g) root ways c)
    (hw : ways[i]? = some w) :
    (c i).Takes g (c (i + 1)) ∧ c (i + 1) = (c i).extend g w.realization w.target := by
  obtain ⟨hallows, hnext⟩ := takeContinuation_eq_ok_iff.mp (h.accepted i w hw)
  exact ⟨⟨_, _, Grammar.follows_of_mem_continuations (h.mem_continuations hg hw), hallows, hnext⟩,
    hnext⟩

theorem reflTransGen (hg : g.IsClosed) (h : IsWalk g (.ofGrammar g) root ways c)
    (hi : i ≤ ways.length) : Relation.ReflTransGen (Takes g) (c 0) (c i) := by
  induction i with
  | zero => exact .refl
  | succ i ih =>
    exact (ih (Nat.le_of_succ_le hi)).tail (h.takes hg (List.getElem?_eq_getElem hi)).1

end IsWalk

/-- Along a walk from a root with the attributes of its surface, the attributes of the analysis
    after a continuation are those that the paradigm says. -/
theorem attributes_eq_of_isWalk {ways : List Continuation} {c : Nat → Analysis}
    (hroot : root.attributes = Phonetics.ofWord root.surface) (hsurface : root.surface ≠ [])
    (h : IsWalk Turkish.grammar Turkish.paradigm root ways c) :
    ∀ i w, ways[i]? = some w → (c (i + 1)).attributes = w.attributes := by
  intro i w hw
  obtain ⟨state, rest, -, hbegin⟩ := h.begins
  have hi : i < ways.length := (List.getElem?_eq_some_iff.mp hw).1
  have hreach := h.reflTransGen Turkish.isClosed (Nat.le_of_lt hi)
  obtain ⟨htakes, hnext⟩ := h.takes Turkish.isClosed hw
  obtain ⟨e, -, -, id, -, r, -, hcontinuation⟩ :=
    Grammar.mem_continuations_iff.mp (h.mem_continuations Turkish.isClosed hw)
  rw [hbegin] at hreach
  rw [hnext] at htakes ⊢
  rw [attributes_extend_eq_after Turkish.speaksInside hsurface hroot hreach htakes, hcontinuation]

/-- Continuations make a walk if each is in the cell it starts from and none is refused. -/
theorem isWalk_afterMoves {ways : List Continuation} (hg : g.IsClosed)
    (hstate : g.rootState root = .ok state)
    (hways : let c := afterMoves g (begin root state rest) (ways.map .continuation)
      ∀ i, (hi : i < ways.length) →
        (c i).state ∈ g.stateIds ∧ (c i).attributes ∈ Phonetics.contexts ∧
          ways[i] ∈ g.continuations (c i).state (c i).attributes ∧
          ((c i).takeContinuation g ways[i]).toOption.isSome = true) :
    IsWalk g (.ofGrammar g) root ways
      (afterMoves g (begin root state rest) (ways.map .continuation)) where
  begins := ⟨state, rest, hstate, rfl⟩
  offered i w hw := by
    obtain ⟨hi, rfl⟩ := List.getElem?_eq_some_iff.mp hw
    obtain ⟨hs, hcontext, hmem, -⟩ := hways i hi
    exact ⟨_, (Paradigm.cell?_ofGrammar_eq_some_iff hg).mpr ⟨hs, hcontext, rfl⟩, hmem⟩
  accepted i w hw := by
    obtain ⟨hi, rfl⟩ := List.getElem?_eq_some_iff.mp hw
    obtain ⟨-, -, -, htaken⟩ := hways i hi
    obtain ⟨b, hb⟩ := Option.isSome_iff_exists.mp htaken
    have hmoves : i < (ways.map Move.continuation).length := by simpa using hi
    have hmove : (ways.map Move.continuation)[i] = .continuation ways[i] := List.getElem_map _
    rw [afterMoves_succ hmoves, hmove, take, hb, Option.getD_some]
    exact Except.toOption_eq_some_iff.mp hb

/-- The way along the first form of a suffix, as it is spelled and as its template stands there. The
    word it leads to has the given end. -/
def wayOf (s : Turkish.SuffixName) (text plain : Word) (target : Turkish.StateName)
    (ending : Word) : Continuation :=
  ⟨⟨⟨s.firstForm⟩, s.id, text, plain, if text = plain then none else some .vowelStart⟩, target.id,
    Phonetics.ofWord ending⟩

/-- A name, set off by an apostrophe, becomes a noun with a possessive: `Ali'liğim`. The stop of the
    suffix before the possessive is voiced. -/
def nameWays : List Continuation := [
  wayOf .propApos "'".toList "'".toList .nounRoot "Ali".toList,
  wayOf .a3sg [] [] .nounWithAgreement "Ali".toList,
  wayOf .pnon [] [] .nounWithPossession "Ali".toList,
  wayOf .nomDeriv [] [] .nounNomDeriv "Ali".toList,
  wayOf .ness "liğ".toList "lik".toList .nounRoot "liğ".toList,
  wayOf .a3sg [] [] .nounWithAgreement "liğ".toList,
  wayOf .p1sg "im".toList "im".toList .nounWithPossession "im".toList]

def nameRoot : Root :=
  .coined "Ali".toList
    { citation := "Ali".toList, lemmaRoot := "Ali".toList, pos := .noun,
      secondary := some .properNoun }

/-- The walk over `Ali'liğim`. -/
theorem attributes_eq_of_isWalk_name :
    let c := afterMoves Turkish.grammar
      (begin nameRoot Turkish.StateName.properNounRoot.id "'liğim".toList)
      (nameWays.map .continuation)
    nameRoot.attributes = Phonetics.ofWord nameRoot.surface ∧ nameRoot.surface ≠ [] ∧
      IsWalk Turkish.grammar Turkish.paradigm nameRoot nameWays c ∧
      (c 7).surface = "Ali'liğim".toList ∧
      ∀ i w, nameWays[i]? = some w → (c (i + 1)).attributes = w.attributes := by
  intro c
  have hroot : nameRoot.attributes = Phonetics.ofWord nameRoot.surface := by decide
  have hsurface : nameRoot.surface ≠ [] := by decide
  have hwalk : IsWalk Turkish.grammar Turkish.paradigm nameRoot nameWays c :=
    isWalk_afterMoves Turkish.isClosed (by decide) (by decide +kernel)
  exact ⟨hroot, hsurface, hwalk, by decide +kernel, attributes_eq_of_isWalk hroot hsurface hwalk⟩

end Analysis

end TurkishMorphology
