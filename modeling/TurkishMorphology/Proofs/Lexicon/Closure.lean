import TurkishMorphology.Proofs.Lexicon.Inference
/-!
# Inference as a closure

What is inferred for a root is a list of proposals. Each proposes one attribute of a class, and it
is taken up unless some attribute of the class is there already. The classes have nothing in common,
so proposals do not get in each other's way; and they do not depend on what was taken up before.
This makes inference a closure: what is stated stays, and inferring once more adds nothing.

## Main definitions

- `Proposal` — an attribute that is inferred unless its class is settled
- `LexemeAttributes.takeUp` — the set after a list of proposals
- `RootShape.proposals` — what the shape of a root proposes
- `IsClosure` — what inference may make of the stated attributes

## Main statements

- `LexemeAttributes.contains_takeUp_of_mem` — what a list of proposals does to each class
- `inferAttributes_eq_takeUp` — inference takes up what the shape of the root proposes
- `isClosure_inferAttributes` — inference is a closure
-/

namespace TurkishMorphology

-- ════════════════════════════════════════════════════════════════════════
-- Proposals
-- ════════════════════════════════════════════════════════════════════════

/-- An attribute that is inferred unless some attribute of its class is there already. -/
structure Proposal where
  given : List LexemeAttribute
  proposed : LexemeAttribute

/-- Whether what is proposed belongs to the class. -/
def Proposal.IsProper (p : Proposal) : Prop := p.proposed ∈ p.given

/-- Whether two proposals are about different things. -/
def Proposal.IsApart (p q : Proposal) : Prop := ∀ a ∈ p.given, a ∉ q.given

namespace LexemeAttributes

variable {s t : LexemeAttributes} {given : List LexemeAttribute} {a b : LexemeAttribute}
  {p : Proposal} {ps : List Proposal}

theorem hasSome_iff : hasSome s given = true ↔ ∃ a ∈ given, s.contains a = true :=
  List.any_eq_true

theorem hasSome_congr (h : ∀ a ∈ given, s.contains a = t.contains a) :
    hasSome s given = hasSome t given :=
  Bool.eq_iff_iff.mpr <| by
    rw [hasSome_iff, hasSome_iff]
    exact exists_congr fun a => and_congr_right fun ha => by rw [h a ha]

theorem hasSome_of_containsAll (h : s.containsAll t = true) (hgiven : hasSome t given = true) :
    hasSome s given = true := by
  obtain ⟨a, ha, hcontains⟩ := hasSome_iff.mp hgiven
  exact hasSome_iff.mpr ⟨a, ha, FlagSet.contains_of_containsAll h hcontains⟩

theorem addUnlessGiven_of_hasSome (h : hasSome s given = true) : addUnlessGiven s given a = s :=
  if_pos h

theorem addUnlessGiven_of_not (h : hasSome s given = false) :
    addUnlessGiven s given a = s.insert a :=
  if_neg (ne_true_of_eq_false h)

theorem containsAll_addUnlessGiven (s : LexemeAttributes) (given : List LexemeAttribute)
    (a : LexemeAttribute) : (addUnlessGiven s given a).containsAll s = true := by
  cases h : hasSome s given with
  | true =>
    rw [addUnlessGiven_of_hasSome h]
    exact FlagSet.containsAll_self s
  | false =>
    rw [addUnlessGiven_of_not h]
    exact FlagSet.containsAll_insert s a

theorem hasSome_addUnlessGiven (ha : a ∈ given) :
    hasSome (addUnlessGiven s given a) given = true := by
  cases h : hasSome s given with
  | true =>
    rw [addUnlessGiven_of_hasSome h]
    exact h
  | false =>
    rw [addUnlessGiven_of_not h]
    exact hasSome_iff.mpr ⟨a, ha, by simp⟩

/-- The set after all proposals, one after the other. -/
def takeUp (s : LexemeAttributes) (ps : List Proposal) : LexemeAttributes :=
  ps.foldl (fun s p => addUnlessGiven s p.given p.proposed) s

@[simp]
theorem takeUp_nil (s : LexemeAttributes) : takeUp s [] = s := rfl

theorem takeUp_cons (s : LexemeAttributes) (p : Proposal) (ps : List Proposal) :
    takeUp s (p :: ps) = takeUp (addUnlessGiven s p.given p.proposed) ps := rfl

theorem takeUp_append (s : LexemeAttributes) (ps qs : List Proposal) :
    takeUp s (ps ++ qs) = takeUp (takeUp s ps) qs :=
  List.foldl_append ..

theorem containsAll_takeUp (s : LexemeAttributes) (ps : List Proposal) :
    (takeUp s ps).containsAll s = true := by
  induction ps generalizing s with
  | nil => exact FlagSet.containsAll_self s
  | cons p ps ih =>
    rw [takeUp_cons]
    exact FlagSet.containsAll_trans (ih _) (containsAll_addUnlessGiven ..)

/-- Proposals are not taken up where their classes are settled. -/
theorem takeUp_of_hasSome (h : ∀ p ∈ ps, hasSome s p.given = true) : takeUp s ps = s := by
  induction ps with
  | nil => rfl
  | cons p ps ih =>
    rw [takeUp_cons, addUnlessGiven_of_hasSome (h p (List.mem_cons_self ..))]
    exact ih fun q hq => h q (List.mem_cons_of_mem _ hq)

/-- After a proposal its class is settled. -/
theorem hasSome_takeUp (hproper : p.IsProper) (hp : p ∈ ps) :
    hasSome (takeUp s ps) p.given = true := by
  induction ps generalizing s with
  | nil => cases hp
  | cons q ps ih =>
    rw [takeUp_cons]
    rcases List.mem_cons.mp hp with rfl | hp
    · exact hasSome_of_containsAll (containsAll_takeUp ..) (hasSome_addUnlessGiven hproper)
    · exact ih hp

/-- Attributes outside of all classes are not inferred. -/
theorem contains_takeUp_of_notMem (hproper : ∀ p ∈ ps, p.IsProper) (ha : ∀ p ∈ ps, a ∉ p.given) :
    (takeUp s ps).contains a = s.contains a := by
  induction ps generalizing s with
  | nil => rfl
  | cons p ps ih =>
    rw [takeUp_cons, ih (fun q hq => hproper q (List.mem_cons_of_mem _ hq))
      fun q hq => ha q (List.mem_cons_of_mem _ hq)]
    exact contains_addUnlessGiven_of_notMem (hproper p (List.mem_cons_self ..))
      (ha p (List.mem_cons_self ..))

/-- Of the class of a proposal nothing is inferred but what it proposes, and that only if nothing of
    the class was stated. -/
theorem contains_takeUp_of_mem (hproper : ∀ p ∈ ps, p.IsProper)
    (hapart : ps.Pairwise Proposal.IsApart) (hp : p ∈ ps) (ha : a ∈ p.given) :
    (takeUp s ps).contains a =
      (s.contains a || !hasSome s p.given && decide (a = p.proposed)) := by
  induction ps generalizing s with
  | nil => cases hp
  | cons q ps ih =>
    obtain ⟨hq, hapart⟩ := List.pairwise_cons.mp hapart
    have hproper' : ∀ p ∈ ps, p.IsProper := fun p hp => hproper p (List.mem_cons_of_mem _ hp)
    rw [takeUp_cons]
    rcases List.mem_cons.mp hp with rfl | hp
    · rw [contains_takeUp_of_notMem hproper' fun q hq' => hq q hq' a ha, contains_addUnlessGiven]
    · have hkept : ∀ b ∈ p.given,
          (addUnlessGiven s q.given q.proposed).contains b = s.contains b := fun b hb =>
        contains_addUnlessGiven_of_notMem (hproper q (List.mem_cons_self ..))
          fun hbq => hq p hp b hbq hb
      rw [ih hproper' hapart hp, hkept a ha, hasSome_congr hkept]

end LexemeAttributes

-- ════════════════════════════════════════════════════════════════════════
-- What a root proposes
-- ════════════════════════════════════════════════════════════════════════

open LexemeAttributes

namespace RootShape

variable {s : RootShape} {pos : PrimaryPos} {secondary : Option SecondaryPos}
  {stated : LexemeAttributes} {p : Proposal}

/-- What a verb takes with its aorist, its causative and its passive. -/
def suffixProposals (s : RootShape) : List Proposal :=
  [⟨LexemeAttribute.aorists, s.aorist⟩, ⟨LexemeAttribute.causatives, s.causative⟩,
    ⟨LexemeAttribute.passives, s.passive⟩]

/-- What the shape of a verb proposes. -/
def verbProposals (s : RootShape) (stated : LexemeAttributes) : List Proposal :=
  (if s.dropsVowel stated then [⟨[.progressiveVowelDrop], .progressiveVowelDrop⟩] else []) ++
    s.suffixProposals ++
      if s.endsInStop || (stated.contains .progressiveVowelDrop || s.dropsVowel stated) then
        [⟨LexemeAttribute.voicings, .noVoicing⟩]
      else []

/-- What the shape of another word proposes. -/
def nominalProposals (s : RootShape) (pos : PrimaryPos) (secondary : Option SecondaryPos) :
    List Proposal :=
  if secondary = some .properNoun then [⟨LexemeAttribute.voicings, .noVoicing⟩]
  else if s.endsInStop then
    [⟨LexemeAttribute.voicings,
      if (pos = .noun ∨ pos = .adjective) ∧ s.isPolysyllabic then .voicing else .noVoicing⟩]
  else []

def proposals (s : RootShape) (pos : PrimaryPos) (secondary : Option SecondaryPos)
    (stated : LexemeAttributes) : List Proposal :=
  if pos = .verb then s.verbProposals stated else s.nominalProposals pos secondary

theorem takeUp_suffixProposals (s : RootShape) (stated : LexemeAttributes) :
    takeUp (if s.dropsVowel stated then stated.insert .progressiveVowelDrop else stated)
      s.suffixProposals = s.stemAttributes stated :=
  rfl

theorem verbAttributes_eq_takeUp (s : RootShape) (stated : LexemeAttributes) :
    s.verbAttributes stated = takeUp stated (s.verbProposals stated) := by
  have hdropped : takeUp stated
      (if s.dropsVowel stated then [⟨[.progressiveVowelDrop], .progressiveVowelDrop⟩] else []) =
        if s.dropsVowel stated then stated.insert .progressiveVowelDrop else stated := by
    cases s.dropsVowel stated with
    | false => rfl
    | true =>
      cases hcontains : stated.contains .progressiveVowelDrop with
      | true =>
        rw [if_pos rfl, if_pos rfl, takeUp_cons, FlagSet.insert_of_contains hcontains]
        exact addUnlessGiven_of_hasSome (hasSome_iff.mpr ⟨_, List.mem_singleton_self _, hcontains⟩)
      | false =>
        refine addUnlessGiven_of_not ?_
        rw [hasSome, List.any_cons, hcontains]
        rfl
  rw [verbProposals, takeUp_append, takeUp_append, hdropped, takeUp_suffixProposals,
    verbAttributes_eq, contains_stemAttributes (by decide), decide_eq_true rfl, Bool.and_true]
  split <;> rfl

theorem nominalAttributes_eq_takeUp (s : RootShape) (pos : PrimaryPos)
    (secondary : Option SecondaryPos) (stated : LexemeAttributes) :
    s.nominalAttributes pos secondary stated =
      takeUp stated (s.nominalProposals pos secondary) := by
  unfold nominalAttributes nominalProposals
  split
  · rfl
  · split <;> rfl

/-- The classes that inference knows, in the order in which it settles them. -/
def classes : List (List LexemeAttribute) :=
  [[.progressiveVowelDrop], LexemeAttribute.aorists, LexemeAttribute.causatives,
    LexemeAttribute.passives, LexemeAttribute.voicings]

theorem map_given_verbProposals_sublist (s : RootShape) (stated : LexemeAttributes) :
    ((s.verbProposals stated).map Proposal.given).Sublist classes := by
  have hone : ∀ (asked : Bool) (p : Proposal),
      ((if asked then [p] else []).map Proposal.given).Sublist [p.given] := by
    intro asked p
    cases asked
    · exact List.nil_sublist _
    · exact List.Sublist.refl _
  rw [verbProposals, List.map_append, List.map_append]
  exact ((hone _ _).append (List.Sublist.refl _)).append (hone _ _)

theorem map_given_nominalProposals_sublist (s : RootShape) (pos : PrimaryPos)
    (secondary : Option SecondaryPos) :
    ((s.nominalProposals pos secondary).map Proposal.given).Sublist [LexemeAttribute.voicings] := by
  unfold nominalProposals
  split
  · exact List.Sublist.refl _
  · split
    · exact List.Sublist.refl _
    · exact List.nil_sublist _

theorem map_given_proposals_sublist (s : RootShape) (pos : PrimaryPos)
    (secondary : Option SecondaryPos) (stated : LexemeAttributes) :
    ((s.proposals pos secondary stated).map Proposal.given).Sublist classes := by
  unfold proposals
  split
  · exact s.map_given_verbProposals_sublist stated
  · exact (s.map_given_nominalProposals_sublist pos secondary).trans (by decide)

theorem isApart_proposals (s : RootShape) (pos : PrimaryPos) (secondary : Option SecondaryPos)
    (stated : LexemeAttributes) :
    (s.proposals pos secondary stated).Pairwise Proposal.IsApart := by
  have hclasses : classes.Pairwise fun c d => ∀ a ∈ c, a ∉ d := by decide
  have hpairwise := hclasses.sublist (s.map_given_proposals_sublist pos secondary stated)
  rw [List.pairwise_map] at hpairwise
  exact hpairwise

theorem given_mem_classes (h : p ∈ s.proposals pos secondary stated) : p.given ∈ classes :=
  (s.map_given_proposals_sublist pos secondary stated).subset (List.mem_map_of_mem h)

theorem eq_of_mem_classes {c d : List LexemeAttribute} {a : LexemeAttribute} (hc : c ∈ classes)
    (hd : d ∈ classes) (hac : a ∈ c) (had : a ∈ d) : c = d := by
  have hall : ∀ c ∈ classes, ∀ d ∈ classes, ∀ a ∈ c, a ∈ d → c = d := by decide
  exact hall c hc d hd a hac had

theorem isProper_of_mem_verbProposals (h : p ∈ s.verbProposals stated) : p.IsProper := by
  simp only [verbProposals, suffixProposals, List.mem_append, List.mem_ite_nil_right,
    List.mem_cons, List.not_mem_nil, or_false] at h
  rcases h with (⟨-, rfl⟩ | rfl | rfl | rfl) | ⟨-, rfl⟩
  · exact List.mem_singleton_self _
  · exact s.aorist_mem
  · exact s.causative_mem
  · exact s.passive_mem
  · show LexemeAttribute.noVoicing ∈ LexemeAttribute.voicings
    decide

theorem isProper_of_mem_nominalProposals (h : p ∈ s.nominalProposals pos secondary) :
    p.IsProper := by
  have hvoicing : LexemeAttribute.voicing ∈ LexemeAttribute.voicings := by decide
  have hnoVoicing : LexemeAttribute.noVoicing ∈ LexemeAttribute.voicings := by decide
  unfold nominalProposals at h
  split at h
  · rw [List.mem_singleton.mp h]
    exact hnoVoicing
  · split at h
    · rw [List.mem_singleton.mp h]
      show ite _ _ _ ∈ LexemeAttribute.voicings
      split
      · exact hvoicing
      · exact hnoVoicing
    · cases h

theorem isProper_of_mem_proposals (h : p ∈ s.proposals pos secondary stated) : p.IsProper := by
  unfold proposals at h
  split at h
  · exact isProper_of_mem_verbProposals h
  · exact isProper_of_mem_nominalProposals h

/-- What is proposed does not depend on what was taken up. -/
theorem proposals_takeUp (s : RootShape) (pos : PrimaryPos) (secondary : Option SecondaryPos)
    (stated : LexemeAttributes) :
    s.proposals pos secondary (takeUp stated (s.proposals pos secondary stated)) =
      s.proposals pos secondary stated := by
  unfold proposals
  split
  · have hdrops : s.dropsVowel (takeUp stated (s.verbProposals stated)) = s.dropsVowel stated := by
      rw [← verbAttributes_eq_takeUp, dropsVowel, contains_verbAttributes (by decide), dropsVowel]
      simp
    have hcontains : ((takeUp stated (s.verbProposals stated)).contains .progressiveVowelDrop ||
        s.dropsVowel stated) = (stated.contains .progressiveVowelDrop || s.dropsVowel stated) := by
      rw [← verbAttributes_eq_takeUp, contains_verbAttributes (by decide), decide_eq_true rfl,
        Bool.and_true, Bool.or_assoc, Bool.or_self]
    rw [verbProposals, hdrops, hcontains, ← verbProposals]
  · rfl

end RootShape

-- ════════════════════════════════════════════════════════════════════════
-- Inference
-- ════════════════════════════════════════════════════════════════════════

section Inference

variable {root : Word} {s : RootShape} {pos : PrimaryPos} {secondary : Option SecondaryPos}
  {stated : LexemeAttributes} {given : List LexemeAttribute} {a : LexemeAttribute}

/-- Nothing is inferred from a root without letters. -/
theorem inferAttributes_nil (pos : PrimaryPos) (secondary : Option SecondaryPos)
    (stated : LexemeAttributes) : inferAttributes [] pos secondary stated = stated :=
  rfl

/-- Inference takes up what the shape of the root proposes. -/
theorem inferAttributes_eq_takeUp (h : RootShape.of? root = some s) (pos : PrimaryPos)
    (secondary : Option SecondaryPos) (stated : LexemeAttributes) :
    inferAttributes root pos secondary stated =
      takeUp stated (s.proposals pos secondary stated) := by
  rw [inferAttributes, h, RootShape.proposals]
  dsimp only
  split
  · exact s.verbAttributes_eq_takeUp stated
  · exact s.nominalAttributes_eq_takeUp pos secondary stated

theorem exists_shape (h : root ≠ []) : ∃ s, RootShape.of? root = some s := by
  rw [RootShape.of?, List.getLast?_eq_some_getLast h]
  exact ⟨_, rfl⟩

theorem containsAll_inferAttributes (root : Word) (pos : PrimaryPos)
    (secondary : Option SecondaryPos) (stated : LexemeAttributes) :
    (inferAttributes root pos secondary stated).containsAll stated = true := by
  by_cases hroot : root = []
  · rw [hroot, inferAttributes_nil]
    exact FlagSet.containsAll_self stated
  · obtain ⟨s, hs⟩ := exists_shape hroot
    rw [inferAttributes_eq_takeUp hs]
    exact containsAll_takeUp ..

/-- After inference all classes that the shape of the root speaks of are settled, so there is
    nothing left to infer. -/
theorem inferAttributes_idem (root : Word) (pos : PrimaryPos) (secondary : Option SecondaryPos)
    (stated : LexemeAttributes) :
    inferAttributes root pos secondary (inferAttributes root pos secondary stated) =
      inferAttributes root pos secondary stated := by
  by_cases hroot : root = []
  · rw [hroot, inferAttributes_nil, inferAttributes_nil]
  · obtain ⟨s, hs⟩ := exists_shape hroot
    rw [inferAttributes_eq_takeUp hs, inferAttributes_eq_takeUp hs, s.proposals_takeUp]
    apply takeUp_of_hasSome
    intro p hp
    exact hasSome_takeUp (RootShape.isProper_of_mem_proposals hp) hp

/-- Of each class at most one attribute is inferred, and only if none of the class is stated. -/
theorem exists_contains_inferAttributes (root : Word) (pos : PrimaryPos)
    (secondary : Option SecondaryPos) (stated : LexemeAttributes)
    (hgiven : given ∈ RootShape.classes) : ∃ proposed : Option LexemeAttribute, ∀ a ∈ given,
      (inferAttributes root pos secondary stated).contains a =
        (stated.contains a || !hasSome stated given && decide (proposed = some a)) := by
  by_cases hroot : root = []
  · refine ⟨none, fun a _ => ?_⟩
    rw [hroot, inferAttributes_nil]
    simp
  · obtain ⟨s, hs⟩ := exists_shape hroot
    rw [inferAttributes_eq_takeUp hs]
    have hproper : ∀ p ∈ s.proposals pos secondary stated, p.IsProper := fun p =>
      RootShape.isProper_of_mem_proposals
    by_cases hsettles : ∃ p ∈ s.proposals pos secondary stated, p.given = given
    · obtain ⟨p, hp, rfl⟩ := hsettles
      refine ⟨some p.proposed, fun a ha => ?_⟩
      rw [contains_takeUp_of_mem hproper (s.isApart_proposals pos secondary stated) hp ha]
      simp [eq_comm]
    · refine ⟨none, fun a ha => ?_⟩
      have houtside : ∀ p ∈ s.proposals pos secondary stated, a ∉ p.given := fun p hp hap =>
        hsettles ⟨p, hp, RootShape.eq_of_mem_classes (RootShape.given_mem_classes hp) hgiven hap ha⟩
      rw [contains_takeUp_of_notMem hproper houtside]
      simp

/-- What is stated of a class is all that there is of it. -/
theorem contains_inferAttributes_of_hasSome (hgiven : given ∈ RootShape.classes)
    (hstated : hasSome stated given = true) (ha : a ∈ given) :
    (inferAttributes root pos secondary stated).contains a = stated.contains a := by
  obtain ⟨proposed, hcontains⟩ :=
    exists_contains_inferAttributes root pos secondary stated hgiven
  rw [hcontains a ha, hstated, Bool.not_true, Bool.false_and, Bool.or_false]

/-- No two attributes of a class are inferred. -/
theorem eq_of_contains_inferAttributes {b : LexemeAttribute} (hgiven : given ∈ RootShape.classes)
    (hstated : hasSome stated given = false) (ha : a ∈ given) (hb : b ∈ given)
    (hinferred : (inferAttributes root pos secondary stated).contains a = true)
    (hinferred' : (inferAttributes root pos secondary stated).contains b = true) : a = b := by
  obtain ⟨proposed, hcontains⟩ :=
    exists_contains_inferAttributes root pos secondary stated hgiven
  have hproposed : ∀ c ∈ given, (inferAttributes root pos secondary stated).contains c = true →
      proposed = some c := by
    intro c hc h
    have hnone : stated.contains c = false := by
      simpa using List.any_eq_false.mp hstated c hc
    rw [hcontains c hc, hnone, Bool.false_or, Bool.and_eq_true] at h
    exact of_decide_eq_true h.2
  exact Option.some_inj.mp ((hproposed a ha hinferred).symm.trans (hproposed b hb hinferred'))

/-- A verb has an attribute for each suffix that depends on it. -/
theorem hasSome_inferAttributes_verb (hroot : root ≠ []) (hgiven : given ∈
      [LexemeAttribute.aorists, LexemeAttribute.causatives, LexemeAttribute.passives]) :
    hasSome (inferAttributes root .verb secondary stated) given = true := by
  obtain ⟨s, hs⟩ := exists_shape hroot
  obtain ⟨p, hp, rfl⟩ : ∃ p ∈ s.suffixProposals, p.given = given :=
    List.mem_map.mp (show given ∈ s.suffixProposals.map Proposal.given from hgiven)
  have hmem : p ∈ s.proposals .verb secondary stated :=
    List.mem_append_left _ (List.mem_append_right _ hp)
  rw [inferAttributes_eq_takeUp hs]
  exact hasSome_takeUp (RootShape.isProper_of_mem_proposals hmem) hmem

/-- Of words other than verbs only the voicing is inferred. -/
theorem contains_inferAttributes_of_ne_verb (hpos : pos ≠ .verb)
    (ha : a ∉ LexemeAttribute.voicings) :
    (inferAttributes root pos secondary stated).contains a = stated.contains a := by
  by_cases hroot : root = []
  · rw [hroot, inferAttributes_nil]
  · obtain ⟨s, hs⟩ := exists_shape hroot
    rw [inferAttributes_eq_takeUp hs]
    refine contains_takeUp_of_notMem (fun p => RootShape.isProper_of_mem_proposals) fun p hp => ?_
    rw [RootShape.proposals, if_neg hpos] at hp
    have hgiven := (s.map_given_nominalProposals_sublist pos secondary).subset
      (List.mem_map_of_mem hp)
    rw [List.mem_singleton.mp hgiven]
    exact ha

/-- A verb with an irregular stem is not inferred to drop its vowel. -/
theorem contains_progressiveVowelDrop_inferAttributes
    (h : (inferAttributes root pos secondary stated).contains .rootChange = true) :
    (inferAttributes root pos secondary stated).contains .progressiveVowelDrop =
      stated.contains .progressiveVowelDrop := by
  by_cases hpos : pos = .verb
  · by_cases hroot : root = []
    · rw [hroot, inferAttributes_nil]
    · obtain ⟨s, hs⟩ := exists_shape hroot
      have hinferred : inferAttributes root pos secondary stated = s.verbAttributes stated := by
        rw [inferAttributes, hs]
        exact if_pos hpos
      rw [hinferred, RootShape.contains_verbAttributes (by decide), Bool.or_eq_true] at h
      have hstated : stated.contains .rootChange = true :=
        h.resolve_right (by simp)
      have hdrops : s.dropsVowel stated = false := by
        rw [RootShape.dropsVowel, hstated, Bool.not_true, Bool.and_false]
      rw [hinferred, RootShape.contains_verbAttributes (by decide), hdrops, Bool.false_and,
        Bool.or_false]
  · exact contains_inferAttributes_of_ne_verb hpos (by decide)

end Inference

/-- What inference may make of the attributes that are stated for a root. -/
structure IsClosure (root : Word) (pos : PrimaryPos) (secondary : Option SecondaryPos)
    (stated inferred : LexemeAttributes) : Prop where
  /-- What is stated stays. -/
  extensive : inferred.containsAll stated = true
  /-- Inferring once more adds nothing. -/
  idempotent : inferAttributes root pos secondary inferred = inferred
  /-- Where something is stated of the voicing, nothing of it is inferred. -/
  voicing_of_stated : hasSome stated LexemeAttribute.voicings = true →
    ∀ a ∈ LexemeAttribute.voicings, inferred.contains a = stated.contains a
  /-- Otherwise at most one attribute of it is. -/
  voicing_unique : hasSome stated LexemeAttribute.voicings = false →
    ∀ a ∈ LexemeAttribute.voicings, ∀ b ∈ LexemeAttribute.voicings,
      inferred.contains a = true → inferred.contains b = true → a = b
  /-- A verb has an aorist, a causative and a passive. -/
  verb : pos = .verb → root ≠ [] →
    ∀ given ∈ [LexemeAttribute.aorists, LexemeAttribute.causatives, LexemeAttribute.passives],
      hasSome inferred given = true
  /-- Where something is stated of one of these classes, nothing of the class is inferred. -/
  verb_of_stated :
    ∀ given ∈ [LexemeAttribute.aorists, LexemeAttribute.causatives, LexemeAttribute.passives],
      hasSome stated given = true → ∀ a ∈ given, inferred.contains a = stated.contains a
  /-- Of other words only the voicing is inferred, and so nothing that is for verbs. -/
  nominal : pos ≠ .verb → ∀ a, a ∉ LexemeAttribute.voicings →
    inferred.contains a = stated.contains a
  /-- No vowel drop is inferred beside an irregular stem. -/
  regular : inferred.contains .rootChange = true →
    inferred.contains .progressiveVowelDrop = stated.contains .progressiveVowelDrop

/-- Inference is a closure: what is stated stays and wins, and inferring once more adds nothing. -/
theorem isClosure_inferAttributes (root : Word) (pos : PrimaryPos)
    (secondary : Option SecondaryPos) (stated : LexemeAttributes) :
    IsClosure root pos secondary stated (inferAttributes root pos secondary stated) where
  extensive := containsAll_inferAttributes root pos secondary stated
  idempotent := inferAttributes_idem root pos secondary stated
  voicing_of_stated hstated _ ha := contains_inferAttributes_of_hasSome (by decide) hstated ha
  voicing_unique hstated _ ha _ hb :=
    eq_of_contains_inferAttributes (by decide) hstated ha hb
  verb hpos hroot given hgiven := by
    subst hpos
    exact hasSome_inferAttributes_verb hroot hgiven
  verb_of_stated given hgiven hstated a ha := by
    have hclass : given ∈ RootShape.classes := by
      have hsublist : [LexemeAttribute.aorists, LexemeAttribute.causatives,
        LexemeAttribute.passives].Sublist RootShape.classes := by decide
      exact hsublist.subset hgiven
    exact contains_inferAttributes_of_hasSome hclass hstated ha
  nominal hpos _ ha := contains_inferAttributes_of_ne_verb hpos ha
  regular := contains_progressiveVowelDrop_inferAttributes

end TurkishMorphology
