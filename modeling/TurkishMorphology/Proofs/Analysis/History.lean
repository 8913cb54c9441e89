import TurkishMorphology.Proofs.Analysis.Forcing
import TurkishMorphology.Proofs.Analysis.Irregular
import TurkishMorphology.Proofs.Analysis.Recomputation
import TurkishMorphology.Proofs.Analysis.Segment
/-!
# Histories

The conditions on tenses and persons look at the suffixes taken since the last derivation, and those
are a sequence. A table lists for some states all sequences with which an analysis can be there. It
is checked edge by edge: an edge that derives leads on with nothing taken, and any other adds its
suffix to a sequence of its source, unless the group of the suffix is in it already, for then the
gates refuse it.

## Main definitions

- `Histories` — what may have been taken since the last derivation, for some states
- `Grammar.recalls` — whether the edges of a grammar stay within the histories
- `Analysis.IsRecalled` — an analysis whose history is one of those
- `Turkish.histories` — the histories of verbs on the way to their persons
- `Turkish.IsCandidate` — where the analyses of a word begin

## Main statements

- `Analysis.IsRecalled.reflTransGen` — steps along the grammar stay within the histories
- `Turkish.IsCandidate.isRecalled` — so does every way to begin
-/

namespace TurkishMorphology

/-- For some states, what may have been taken since the last derivation when an analysis is
    there. -/
abbrev Histories := List (StateId × List (List SuffixId))

/-- Whether the suffixes may have been taken in the state; they may in a state without an entry. -/
def Histories.admits (h : Histories) (state : StateId) (taken : List SuffixId) : Bool :=
  (h.lookup state).all fun known => known.contains taken

namespace Grammar

def groupsOf (g : Grammar) (taken : List SuffixId) : List GroupId :=
  taken.flatMap fun s => (g.suffix s).group.toList

/-- Whether the histories have whatever is taken once an edge was followed. An edge that does not
    derive leads to a state with an entry only from another one with an entry. -/
def recalls (g : Grammar) (h : Histories) : Bool :=
  g.edges.all fun e =>
    if (g.state e.source).isDerivational then h.admits e.target []
    else (h.lookup e.target).isNone || (h.lookup e.source).any fun known => known.all fun taken =>
      (g.suffix e.suffix).group.any (g.groupsOf taken).contains
        || h.admits e.target (taken ++ [e.suffix])

end Grammar

namespace Analysis

variable {g : Grammar} {h : Histories} {a b : Analysis}

theorem KeepsSegment.groups_eq (ha : a.KeepsSegment g) :
    a.groups = g.groupsOf a.recentSuffixes := by
  rw [ha.groups, Grammar.groupsOf, recentSuffixes, List.flatMap_map]

/-- A trace whose history is one of those that its state has. -/
structure IsRecalled (g : Grammar) (h : Histories) (a : Analysis) : Prop where
  trace : a.IsTrace g
  history : h.admits a.state a.recentSuffixes = true

theorem IsRecalled.extend {r : Realization} {target : StateId} (hg : g.recalls h = true)
    (ha : a.IsRecalled g h) (hfollows : (a.nextStep g r target).Follows g a.attributes)
    (hallows : a.Allows g r target) : (a.extend g r target).IsRecalled g h := by
  have hkeeps := ha.trace.keepsSegment
  have hedge := List.all_eq_true.mp hg _ hfollows.edge
  refine ⟨ha.trace.extend, ?_⟩
  rw [state_extend, hkeeps.positions.recentSuffixes_extend]
  change (if (g.state a.state).isDerivational then h.admits target [] else
    (h.lookup target).isNone || (h.lookup a.state).any fun known => known.all fun taken =>
      (g.suffix r.suffix).group.any (g.groupsOf taken).contains
        || h.admits target (taken ++ [r.suffix])) = true at hedge
  split
  · next hderives => rwa [if_pos hderives] at hedge
  · next hderives =>
    rw [if_neg hderives, Bool.or_eq_true] at hedge
    rcases hedge with hnone | hknown
    · rw [Histories.admits, Option.isNone_iff_eq_none.mp hnone]
      rfl
    · obtain ⟨known, hlookup, hall⟩ := (Option.any_eq_true ..).mp hknown
      have hmem : a.recentSuffixes ∈ known := by
        have hhistory := ha.history
        rw [Histories.admits, hlookup] at hhistory
        exact List.contains_iff_mem.mp hhistory
      -- Had its group been taken, the gates would have refused the suffix.
      have hfree : (g.suffix r.suffix).group.any (g.groupsOf a.recentSuffixes).contains =
          false := by
        rw [← hkeeps.groups_eq]
        exact hallows.groupFree
      simpa [hfree] using List.all_eq_true.mp hall _ hmem

theorem IsRecalled.reflTransGen (hg : g.recalls h = true) (ha : a.IsRecalled g h)
    (hab : Relation.ReflTransGen (Takes g) a b) : b.IsRecalled g h :=
  invariant_of_takes hab ha fun _ _ _ hc hfollows hallows => hc.extend hg hfollows hallows

end Analysis

namespace Turkish

def polarities : List SuffixName := [.pos, .neg]

def tenses : List SuffixName := [.prog, .fut, .past, .narr, .aor, .neces, .opt, .desr]

/-- The tenses that follow another tense. -/
def copulaTenses : List SuffixName := [.pastCop, .narrCop, .condCop]

/-- A polarity and a tense. -/
def plainTenses : List (List SuffixId) :=
  polarities.flatMap fun p => tenses.map fun t => [p.id, t.id]

/-- What leads to the persons: a polarity and a tense, the same with a tense of the copula after it,
    or a tense of the copula alone. -/
def tenseHistories : List (List SuffixId) :=
  plainTenses ++ (plainTenses.flatMap fun taken => copulaTenses.map fun c => taken ++ [c.id])
    ++ (.pres :: copulaTenses).map fun c => [c.id]

def histories : Histories := [
  (StateName.verbRoot.id, [[]]),
  (StateName.verbWithPolarity.id, polarities.map fun p => [p.id]),
  (StateName.verbCopula.id, [[]]),
  (StateName.verbWithTense.id, tenseHistories)]

theorem recalls_histories : grammar.recalls histories = true := by decide +kernel

/-- Where the analyses of a word begin: with a root alone, with a fixed path of a root, or with the
    steps forced on either. -/
inductive IsCandidate : Analysis → Prop
  | fresh {root : Root} {state : StateId} (rest : Word)
      (begins : grammar.rootState root = .ok state) : IsCandidate (Analysis.begin root state rest)
  | path {index : RootIndex} {paths : FixedPaths} {root : Root} {path a : Analysis} {word : Word}
      (made : FixedPaths.turkish grammar index = .ok paths) (mem : path ∈ paths.get root)
      (rebased : path.rebase word = some a) : IsCandidate a
  | forced {rules : Forcing} {a b : Analysis} (made : Forcing.turkish grammar = .ok rules)
      (candidate : IsCandidate a) (applied : rules.applyTo grammar a = .ok (some b)) :
      IsCandidate b

theorem admits_rootState {root : Root} {state : StateId} (h : grammar.rootState root = .ok state) :
    histories.admits state [] = true := by
  have hall := forall_rootState (P := fun _ state =>
    state.toOption.all (fun s => histories.admits s []) = true) (by decide) root
  rwa [h] at hall

end Turkish

/-- The histories are right at the end of every path. -/
theorem Irregular.admits : trailsPass (fun _ steps => steps.getLast?.all fun s =>
    Turkish.histories.admits s.target
      ((Step.afterLast Step.derives steps).map (·.realization.suffix))) = true := by
  decide +kernel

theorem FixedPaths.IsPathOf.isRecalled {index : RootIndex} {root : Root} {path : Analysis}
    (h : IsPathOf Turkish.grammar index Irregular.drafts root path) :
    path.IsRecalled Turkish.grammar Turkish.histories where
  trace := h.isTrace
  history := by
    obtain ⟨d, -, -, hadmits⟩ := h.exists_draft_of_trailsPass Irregular.admits
    obtain ⟨before, s, hsteps⟩ := path.steps.eq_nil_or_concat.resolve_left h.steps_ne_nil
    have htarget : s.target = path.state := by
      have hpath := h.isTrace.path
      rw [hsteps, List.concat_eq_append] at hpath
      exact (Step.path_append_singleton.mp hpath).2
    rw [Analysis.recentSuffixes, h.isTrace.sinceDerivation_eq]
    rw [hsteps, List.concat_eq_append, List.getLast?_concat, Option.all_some, htarget] at hadmits
    rwa [hsteps, List.concat_eq_append]

/-- However the analysis of a word begins, its history is one of those listed. -/
theorem Turkish.IsCandidate.isRecalled {a : Analysis} (h : IsCandidate a) :
    a.IsRecalled grammar histories := by
  induction h with
  | @fresh root state rest begins =>
    exact ⟨Analysis.isTrace_begin root state rest, admits_rootState begins⟩
  | path made mem rebased =>
    obtain ⟨-, rfl⟩ := Analysis.rebase_eq_some_iff.mp rebased
    have hpath := (FixedPaths.isPathOf_of_mem_get made mem).isRecalled
    exact ⟨hpath.trace.withRemaining _, hpath.history⟩
  | forced made _ applied ih =>
    exact ih.reflTransGen recalls_histories
      (Forcing.takes_of_applyTo (Forcing.liesAlong_turkish made) applied)

end TurkishMorphology
