import TurkishMorphology.Lexicon.Entry
import TurkishMorphology.Proofs.Analysis.Digits
import TurkishMorphology.Proofs.Analysis.History
import TurkishMorphology.Proofs.Analysis.Progressive
/-!
# Forms of tenses and persons

Several forms of a suffix are told apart by their conditions alone, so one form at a time should be
open. Of the aorist it is, whatever was taken before it. Of the persons it is too, but for the first
person plural: once a past or conditional tense of the copula follows the optative, its short form
and that of the optative are both open.

## Main definitions

- `Analysis.openForms` — the forms of a suffix whose conditions an analysis satisfies
- `Turkish.optativeCopulas` — the histories in which two forms of a person are open
- `Turkish.aoristForm` — the form of the aorist after what was taken

## Main statements

- `Turkish.openForms_eq` — the open forms by the conditions in the table
- `Turkish.person_forms` — the open forms of persons
- `Turkish.aorist_forms` — the open form of the aorist
-/

namespace TurkishMorphology

/-- The forms of a suffix whose condition on what comes before them the analysis satisfies. -/
def Analysis.openForms (g : Grammar) (a : Analysis) (id : SuffixId) : List FormId :=
  (g.suffix id).forms.filter fun f => Condition.holdsIfAny (g.form f).guards.before a

/-- The open forms are found among the pairs of a form with its condition. -/
theorem Analysis.openForms_eq_map (g : Grammar) (a : Analysis) (id : SuffixId) :
    a.openForms g id =
      (((g.suffix id).forms.map fun f => (f, (g.form f).guards.before)).filter
        fun p => Condition.holdsIfAny p.2 a).map Prod.fst := by
  rw [List.filter_map, List.map_map]
  exact (List.map_id _).symm

namespace Turkish

variable {start a : Analysis}

/-- The form of a suffix with the given position in the table. -/
def SuffixName.formAt (s : SuffixName) (i : Nat) : FormId := ⟨s.firstForm + i⟩

theorem forms_eq (s : SuffixName) :
    ((grammar.suffix s.id).forms.map fun f => (f, (grammar.form f).guards.before)) =
      s.entry.forms.zipIdx.map fun p => (s.formAt p.2, p.1.2.before) := by
  have hall : ∀ s ∈ SuffixName.all,
      ((grammar.suffix s.id).forms.map fun f => (f, (grammar.form f).guards.before)) =
        s.entry.forms.zipIdx.map fun p => (s.formAt p.2, p.1.2.before) := by decide +kernel
  exact hall s (SuffixName.mem_all s)

/-- The open forms of a suffix are those whose condition in the table holds. -/
theorem openForms_eq {s : SuffixName} {cs : List (Option Condition)}
    (h : s.entry.forms.map (·.2.before) = cs) (a : Analysis) :
    a.openForms grammar s.id =
      (cs.zipIdx.filter fun p => Condition.holdsIfAny p.1 a).map fun p => s.formAt p.2 := by
  rw [Analysis.openForms_eq_map, forms_eq, ← h, List.zipIdx_map, List.filter_map, List.filter_map,
    List.map_map, List.map_map]
  rfl

/-- Of two forms with opposite conditions one is open. -/
theorem exists_openForms_eq_of_opposite {s : SuffixName} {c : Condition}
    (h : s.entry.forms.map (·.2.before) = [some (.negation c), some c]) (a : Analysis) :
    ∃ f, a.openForms grammar s.id = [f] := by
  have hopposite : (Condition.negation c).holds a = !c.holds a := rfl
  rw [openForms_eq h]
  cases hc : c.holds a <;> simp [Condition.holdsIfAny, hopposite, hc]

/-- Each of three forms is open if its own condition holds. -/
theorem openForms_eq_of_three {s : SuffixName} {c d e : Condition}
    (h : s.entry.forms.map (·.2.before) = [some c, some d, some e]) (a : Analysis) :
    a.openForms grammar s.id =
      (if c.holds a then [s.formAt 0] else []) ++ (if d.holds a then [s.formAt 1] else [])
        ++ (if e.holds a then [s.formAt 2] else []) := by
  rw [openForms_eq h]
  cases hc : c.holds a <;> cases hd : d.holds a <;> cases he : e.holds a <;>
    simp [Condition.holdsIfAny, hc, hd, he]

/-- The first person plural has a form for long persons, one for short persons, and one for the
    optative. -/
theorem openForms_verbA1pl (a : Analysis) :
    a.openForms grammar SuffixName.verbA1pl.id =
      (if !shortPerson.holds a && !(Condition.after SuffixName.opt.id).holds a then
        [SuffixName.verbA1pl.formAt 0] else [])
      ++ (if shortPerson.holds a then [SuffixName.verbA1pl.formAt 1] else [])
      ++ (if (Condition.after SuffixName.opt.id).holds a then [SuffixName.verbA1pl.formAt 2]
        else []) :=
  openForms_eq_of_three (c := .both longPerson (.negation (.after SuffixName.opt.id)))
    (d := shortPerson) (e := .after SuffixName.opt.id) rfl a

/-- The optative with a past or conditional tense of the copula after it. -/
def optativeCopulas : List (List SuffixId) :=
  polarities.flatMap fun p =>
    [SuffixName.pastCop, .condCop].map fun c => [p.id, SuffixName.opt.id, c.id]

/-- Those are the histories in which both the short persons and the optative are asked for. -/
theorem mem_optativeCopulas_iff : ∀ taken ∈ tenseHistories,
    (taken.any [SuffixName.past.id, SuffixName.desr.id, SuffixName.pastCop.id,
      SuffixName.condCop.id].contains && taken.contains SuffixName.opt.id) = true ↔
      taken ∈ optativeCopulas := by
  decide

theorem short_and_optative_iff (h : a.recentSuffixes ∈ tenseHistories) :
    (shortPerson.holds a && (Condition.after SuffixName.opt.id).holds a) = true ↔
      a.recentSuffixes ∈ optativeCopulas :=
  mem_optativeCopulas_iff _ h

theorem recentSuffixes_mem_tenseHistories (h : IsCandidate start)
    (hab : Relation.ReflTransGen (Analysis.Takes grammar) start a)
    (hstate : a.state = StateName.verbWithTense.id) : a.recentSuffixes ∈ tenseHistories := by
  have hhistory := (h.isRecalled.reflTransGen recalls_histories hab).history
  rw [hstate] at hhistory
  exact List.contains_iff_mem.mp hhistory

/-- Where persons are taken, what was taken since the last derivation is one of the histories of
    tenses. In each of them one form of each person is open; but of the first person plural the
    short form and that of the optative are open once a past or conditional tense of the copula
    follows the optative. -/
theorem person_forms (h : IsCandidate start)
    (hab : Relation.ReflTransGen (Analysis.Takes grammar) start a)
    (hstate : a.state = StateName.verbWithTense.id) :
    a.recentSuffixes ∈ tenseHistories ∧
      (∀ s ∈ [SuffixName.verbA1sg, .verbA2sg, .verbA2pl],
        ∃ f, a.openForms grammar s.id = [f]) ∧
      (a.recentSuffixes ∉ optativeCopulas →
        ∃ f, a.openForms grammar SuffixName.verbA1pl.id = [f]) ∧
      (a.recentSuffixes ∈ optativeCopulas → a.openForms grammar SuffixName.verbA1pl.id =
        [SuffixName.verbA1pl.formAt 1, SuffixName.verbA1pl.formAt 2]) := by
  have hhistory := recentSuffixes_mem_tenseHistories h hab hstate
  have hopposite : ∀ s ∈ [SuffixName.verbA1sg, .verbA2sg, .verbA2pl],
      s.entry.forms.map (·.2.before) = [some (.negation shortPerson), some shortPerson] := by
    decide
  refine ⟨hhistory, ?_, ?_⟩
  · intro s hs
    exact exists_openForms_eq_of_opposite (hopposite s hs) a
  · rw [← short_and_optative_iff hhistory, openForms_verbA1pl]
    cases shortPerson.holds a <;> cases (Condition.after SuffixName.opt.id).holds a <;> simp

def gelmek : Lexeme := TurkishMorphology.Entry.toLexeme "gelmek".toList {}

def gelRoot : Root := gelmek.plainRoot "gel".toList

/-- The positive, and tenses after it. -/
def tenseSteps (tenses : List SuffixName) : List ForcedStep :=
  Analysis.firstForm .pos .verbWithPolarity ::
    tenses.map fun t => Analysis.firstForm t .verbWithTense

/-- The persons of `geliyor`. -/
theorem person_forms_geliyor :
    let start := Analysis.begin gelRoot StateName.verbRoot.id "iyor".toList
    IsCandidate start ∧ ∃ a, Relation.ReflTransGen (Analysis.Takes grammar) start a ∧
      a.state = StateName.verbWithTense.id ∧
      a.recentSuffixes = [SuffixName.pos.id, SuffixName.prog.id] ∧
      ∃ f, a.openForms grammar SuffixName.verbA1pl.id = [f] := by
  intro start
  have hstart : IsCandidate start := .fresh _ (rootState_eq_verbRoot_iff.mpr rfl)
  obtain ⟨a, hab, htest⟩ := Forcing.exists_takes_of_takeSteps (g := grammar) (a := start)
    (tenseSteps [.prog]) (fun b => b.state = StateName.verbWithTense.id ∧
      b.recentSuffixes = [SuffixName.pos.id, SuffixName.prog.id])
    (by decide +kernel) (by decide +kernel)
  obtain ⟨hstate, hrecent⟩ := of_decide_eq_true htest
  refine ⟨hstart, a, hab, hstate, hrecent, (person_forms hstart hab hstate).2.2.1 ?_⟩
  rw [hrecent]
  decide

/-- After `geleydi` two forms of the first person plural are open, and both `geleydik` and
    `geleydilim` are read. -/
theorem exists_two_person_forms :
    (∃ start a, IsCandidate start ∧ Relation.ReflTransGen (Analysis.Takes grammar) start a ∧
      a.state = StateName.verbWithTense.id ∧ a.surface = "geleydi".toList ∧
      ¬ ∃ f, a.openForms grammar SuffixName.verbA1pl.id = [f]) ∧
    ∀ ending ∈ ["k".toList, "lim".toList], ∃ start a, IsCandidate start ∧
      Relation.ReflTransGen (Analysis.Takes grammar) start a ∧
      a.state = StateName.verbTerminal.id ∧ a.surface = "geleydi".toList ++ ending := by
  have hstart (rest : Word) : IsCandidate (Analysis.begin gelRoot StateName.verbRoot.id rest) :=
    .fresh rest (rootState_eq_verbRoot_iff.mpr rfl)
  constructor
  · obtain ⟨a, hab, htest⟩ := Forcing.exists_takes_of_takeSteps (g := grammar)
      (a := Analysis.begin gelRoot StateName.verbRoot.id "eydi".toList)
      (tenseSteps [.opt, .pastCop]) (fun b => b.state = StateName.verbWithTense.id ∧
        b.surface = "geleydi".toList ∧ (b.openForms grammar SuffixName.verbA1pl.id).length = 2)
      (by decide +kernel) (by decide +kernel)
    obtain ⟨hstate, hsurface, htwo⟩ := of_decide_eq_true htest
    refine ⟨_, a, hstart _, hab, hstate, hsurface, ?_⟩
    rintro ⟨f, hone⟩
    rw [hone] at htwo
    cases htwo
  · -- The short form is read before `k`, that of the optative before `lim`.
    have hreads (i : Nat) (ending : Word) := Forcing.exists_takes_of_takeSteps (g := grammar)
      (a := Analysis.begin gelRoot StateName.verbRoot.id ("eydi".toList ++ ending))
      (tenseSteps [.opt, .pastCop] ++
        [⟨SuffixName.verbA1pl.formAt i, StateName.verbTerminal.id, "Verb_A1pl"⟩])
      (fun b => b.state = StateName.verbTerminal.id ∧ b.surface = "geleydi".toList ++ ending)
    intro ending hending
    rcases List.mem_pair.mp hending with rfl | rfl
    · obtain ⟨a, hab, htest⟩ := hreads 1 "k".toList (by decide +kernel) (by decide +kernel)
      exact ⟨_, a, hstart _, hab, of_decide_eq_true htest⟩
    · obtain ⟨a, hab, htest⟩ := hreads 2 "lim".toList (by decide +kernel) (by decide +kernel)
      exact ⟨_, a, hstart _, hab, of_decide_eq_true htest⟩

/-- The aorist has a form for verbs that take a close vowel and for what was derived, one for verbs
    that take an open vowel, and one after the negative. -/
theorem openForms_aor (a : Analysis) :
    a.openForms grammar SuffixName.aor.id =
      (if (a.lexemeAttributes.contains .aoristI || a.lastDerivation.isSome)
          && !a.recentSuffixes.contains SuffixName.neg.id then [SuffixName.aor.formAt 0] else [])
      ++ (if a.lexemeAttributes.contains .aoristA && !a.lastDerivation.isSome
          && !a.recentSuffixes.contains SuffixName.neg.id then [SuffixName.aor.formAt 1] else [])
      ++ (if a.recentSuffixes.contains SuffixName.neg.id then [SuffixName.aor.formAt 2] else []) :=
  openForms_eq_of_three (c := .both (.either (.lexemeHas .aoristI) .derived) positive)
    (d := .both (.both (.lexemeHas .aoristA) (.negation .derived)) positive)
    (e := .after SuffixName.neg.id) rfl a

/-- The form of the aorist: `z` after the negative, else `+Ir` for what was derived and for verbs
    that take a close vowel, and `+Ar` for all others. -/
def aoristForm (a : Analysis) : FormId :=
  if a.recentSuffixes.contains SuffixName.neg.id then SuffixName.aor.formAt 2
  else if a.lastDerivation.isSome || a.root.lexeme.has .aoristI then SuffixName.aor.formAt 0
  else SuffixName.aor.formAt 1

/-- The positive is taken by verb roots only, and adds nothing. -/
theorem eq_of_follows_pos {context : PhoneticAttributes} {s : Step}
    (h : s.Follows grammar context) (hpos : s.realization.suffix = SuffixName.pos.id) :
    s.source = StateName.verbRoot.id ∧ s.isBlank = true := by
  have hsource : ∀ e ∈ grammar.edges, e.suffix = SuffixName.pos.id →
      e.source = StateName.verbRoot.id := by decide +kernel
  have hform : ∀ f ∈ (grammar.suffix SuffixName.pos.id).forms, f = posForm := by decide +kernel
  have htaken : s.realization.form ∈ (grammar.suffix SuffixName.pos.id).forms := hpos ▸ h.form
  have hplain : s.realization.plain = [] := by
    rw [h.spelled.plain, hform _ htaken, form_posForm]
    rfl
  have htext : s.realization.text = [] := by
    rcases h.spelled.text with ⟨htext, -⟩ | ⟨stem, c, v, hvoiced, -⟩
    · rw [htext, hplain]
    · rw [hplain] at hvoiced
      simp at hvoiced
  refine ⟨hsource _ h.edge hpos, ?_⟩
  rw [Step.isBlank, Realization.isBlank, htext]
  rfl

/-- Where nothing but the positive was taken, the root is that of a verb and the attributes of its
    lexeme apply. -/
theorem lexemeAttributes_of_pos {root : Root} {state : StateId} {rest : Word}
    (hroot : grammar.rootState root = .ok state)
    (hab : Relation.ReflTransGen (Analysis.Takes grammar) (Analysis.begin root state rest) a)
    (hrecent : a.recentSuffixes = [SuffixName.pos.id]) (hnone : a.lastDerivation = none) :
    root.lexeme.pos = .verb ∧ a.lexemeAttributes = root.lexeme.attributes := by
  have htrace := (Analysis.isTrace_begin root state rest).reflTransGen hab
  have hfrom : a.root = root := Analysis.root_eq_of_takes hab
  have hbegins : a.rootState = state := Analysis.rootState_eq_of_takes hab
  rw [Analysis.recentSuffixes, htrace.sinceDerivation_eq_steps hnone] at hrecent
  obtain ⟨s, hsteps, hpos⟩ := List.map_eq_singleton_iff.mp hrecent
  -- The positive is the only step, so it leaves the state of the root.
  have hnew : s ∉ (Analysis.begin root state rest).steps := List.not_mem_nil
  obtain ⟨context, hfollows⟩ : ∃ context, s.Follows grammar context :=
    (Analysis.mem_or_follows_of_takes hab s (by simp [hsteps])).resolve_left hnew
  obtain ⟨hsource, hblank⟩ := eq_of_follows_pos hfollows hpos
  have hpath : Step.Path state [s] a.state := by
    rw [← hbegins, ← hsteps]
    exact htrace.path
  rw [← hpath.1, hsource, rootState_eq_verbRoot_iff] at hroot
  refine ⟨hroot, ?_⟩
  rw [htrace.lexemeAttributes_eq, hsteps, hfrom, Analysis.lexemeView, if_pos (by simp [hblank])]

/-- Of the aorist one form is open for whatever is made of a root, if its lexeme is no verb or takes
    the aorist in one of the two vowels. -/
theorem openForms_aor_eq {root : Root} {state : StateId} {rest : Word}
    (hone : root.lexeme.pos = .verb → root.lexeme.has .aoristA = !root.lexeme.has .aoristI)
    (hroot : grammar.rootState root = .ok state)
    (hab : Relation.ReflTransGen (Analysis.Takes grammar) (Analysis.begin root state rest) a)
    (hstate : a.state = StateName.verbWithPolarity.id) :
    a.openForms grammar SuffixName.aor.id = [aoristForm a] := by
  have hhistory := ((IsCandidate.fresh rest hroot).isRecalled.reflTransGen recalls_histories
    hab).history
  rw [hstate] at hhistory
  have hpolarity : a.recentSuffixes ∈ [[SuffixName.pos.id], [SuffixName.neg.id]] :=
    List.contains_iff_mem.mp hhistory
  have hne : SuffixName.neg.id ≠ SuffixName.pos.id := by decide
  rw [openForms_aor, aoristForm]
  rcases List.mem_pair.mp hpolarity with hpos | hneg
  · cases hderived : a.lastDerivation with
    | some s => simp [hpos, hne]
    | none =>
      obtain ⟨hverb, hattributes⟩ := lexemeAttributes_of_pos hroot hab hpos hderived
      have hclose : a.lexemeAttributes.contains .aoristI = root.lexeme.has .aoristI := by
        rw [hattributes, Lexeme.has]
      have hopen : a.lexemeAttributes.contains .aoristA = !root.lexeme.has .aoristI := by
        rw [hattributes, ← hone hverb, Lexeme.has]
      have hfrom : a.root = root := Analysis.root_eq_of_takes hab
      rw [hfrom, hclose, hopen, hpos]
      cases root.lexeme.has .aoristI <;> simp [hne]
  · simp [hneg]

/-- Of the aorist one form is open after every root of an entry, if its lexeme is no verb or takes
    the aorist in one of the two vowels. -/
theorem aorist_forms {options : LexiconOptions} {lexeme : Lexeme} {roots : List Root} {root : Root}
    {state : StateId} {rest : Word}
    (hone : lexeme.pos = .verb → lexeme.has .aoristA = !lexeme.has .aoristI)
    (hroots : RootIndex.rootsOf options lexeme = .ok roots) (hmem : root ∈ roots)
    (hroot : grammar.rootState root = .ok state)
    (hab : Relation.ReflTransGen (Analysis.Takes grammar) (Analysis.begin root state rest) a)
    (hstate : a.state = StateName.verbWithPolarity.id) :
    a.openForms grammar SuffixName.aor.id = [aoristForm a] := by
  obtain rfl := RootIndex.lexeme_of_mem_rootsOf hroots hmem
  exact openForms_aor_eq hone hroot hab hstate

/-- The aorist of `gelmek` is `gelir`. -/
theorem aorist_forms_gelmek :
    TurkishMorphology.Entry.read "gelmek".toList 1 = .ok (some gelmek) ∧ gelmek.pos = .verb ∧
      gelmek.has .aoristA = !gelmek.has .aoristI ∧
      RootIndex.rootsOf {} gelmek = .ok [gelRoot] ∧
      grammar.rootState gelRoot = .ok StateName.verbRoot.id ∧
      ∃ a, Relation.ReflTransGen (Analysis.Takes grammar)
          (Analysis.begin gelRoot StateName.verbRoot.id "ir".toList) a ∧
        a.state = StateName.verbWithPolarity.id ∧
        a.openForms grammar SuffixName.aor.id = [SuffixName.aor.formAt 0] := by
  have hone : gelmek.has .aoristA = !gelmek.has .aoristI := by decide
  have hroots : RootIndex.rootsOf {} gelmek = .ok [gelRoot] := by decide
  have hroot : grammar.rootState gelRoot = .ok StateName.verbRoot.id :=
    rootState_eq_verbRoot_iff.mpr (by decide)
  obtain ⟨a, hab, htest⟩ := Forcing.exists_takes_of_takeSteps (g := grammar)
    (a := Analysis.begin gelRoot StateName.verbRoot.id "ir".toList) (tenseSteps [])
    (fun b => b.state = StateName.verbWithPolarity.id ∧ aoristForm b = SuffixName.aor.formAt 0)
    (by decide +kernel) (by decide +kernel)
  obtain ⟨hstate, hform⟩ := of_decide_eq_true htest
  refine ⟨by decide, by decide, hone, hroots, hroot, a, hab, hstate, ?_⟩
  rw [aorist_forms (fun _ => hone) hroots (List.mem_singleton_self _) hroot hab hstate, hform]

end Turkish

end TurkishMorphology
