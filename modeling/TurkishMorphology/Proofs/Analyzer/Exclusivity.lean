import TurkishMorphology.Proofs.Analysis.Exclusivity
import TurkishMorphology.Proofs.Analyzer.Soundness
/-!
# Groups in what an analyser finds

Along any grammar the gates keep the segments of a run exclusive. With the grammar of Turkish this
extends to all that an analyser finds, whether an analysis begins with the root alone, with a fixed
path or with forced steps: no segment, opener included, has two suffixes of one group.

## Main statements

- `Analyzer.IsTurkish.keepsGroupsApart_of_reaches` — what the search comes across keeps groups apart
- `Analyzer.segments_exclusive` — exclusive segments along runs, and in what is found for a word
-/

namespace TurkishMorphology

namespace Analyzer

variable {z : Analyzer} {word : Word} {a b : Analysis} {index : RootIndex} {options : Options}

namespace IsTurkish

theorem keepsGroupsApart_of_seeds (h : z.IsTurkish index options) {root : Root} {rest : Word}
    (ha : z.Seeds word root rest a) : a.KeepsGroupsApart z.grammar := by
  cases ha with
  | path _ hmem hrebase =>
    obtain ⟨-, rfl⟩ := Analysis.rebase_eq_some_iff.mp hrebase
    have hpath := h.isPathOf hmem
    rw [h.grammar] at hpath ⊢
    exact hpath.keepsGroupsApart.withRemaining _
  | root _ _ => exact Analysis.keepsGroupsApart_begin root _ rest

theorem keepsGroupsApart_of_reaches (h : z.IsTurkish index options) (hb : z.Reaches word b) :
    b.KeepsGroupsApart z.grammar := by
  obtain ⟨beginning, root, -, a, hseed, hab⟩ := h.derives_of_reaches hb
  refine (h.keepsGroupsApart_of_seeds hseed).reflTransGen ?_ hab
  rw [h.grammar]
  exact Turkish.derivesUngrouped

end IsTurkish

/-- Along any grammar, the segments of every analysis in a run are exclusive. In whatever an
    analyser over a dictionary finds for a word, no two steps of a segment share a group, the
    opener included. -/
theorem segments_exclusive :
    (∀ (g : Grammar) (reading : Condition.Reading) (moves : List Analysis.Move)
      (c : Nat → Analysis), Analysis.IsRun g reading moves c → ∀ i, i ≤ moves.length →
        ∀ segment ∈ Step.segments g (c i).steps, Step.IsExclusive g segment) ∧
    ∀ (lexicon : LexiconOptions) (options : Options) (text word : Word) (z : Analyzer)
      (results : List Analysis), ofDictionary lexicon options text = .ok z →
        z.parse word = .ok results → ∀ a ∈ results, ∀ segment ∈ Step.segments z.grammar a.steps,
          segment.Pairwise fun s t => s.sharesGroup z.grammar t = false := by
  constructor
  · intro g reading moves c hrun i hi
    exact hrun.isExclusive hi
  · intro lexicon options text word z results hz hparse a ha segment hsegment
    obtain ⟨lexemes, -, index, -, hturkish⟩ := ofDictionary_eq_ok_iff.mp hz
    obtain ⟨hreaches, -⟩ := (mem_parse_iff hturkish.stops hparse).mp ha
    exact (hturkish.keepsGroupsApart_of_reaches hreaches).pairwise hsegment

/-- The noun `ev` with the possessive and the locative, made an adjective and a noun again. -/
def evdekiMoves : List Analysis.Move :=
  let first (s : Turkish.SuffixName) (target : Turkish.StateName) : Analysis.Move :=
    .form ⟨s.firstForm⟩ target.id
  [first .a3sg .nounWithAgreement, first .pnon .nounWithPossession, first .loc .nounWithCase,
    first .nounCopulaFree .nounDeriv, first .rel .adjectiveRoot,
    first .adjDerivFree .adjectiveDeriv, first .adjZero .nounRoot, first .a3sg .nounWithAgreement]

def evRoot : Root := { (default : Root) with
  surface := "ev".toList, attributes := Phonetics.ofWord "ev".toList }

/-- The two persons of `evdeki` are in different segments. So are those of `bendim`, whose pronoun
    is read along a fixed path. -/
theorem segments_exclusive_evdeki :
    let start := Analysis.begin evRoot Turkish.StateName.nounRoot.id "deki".toList
    let c := Analysis.afterMoves Turkish.grammar start evdekiMoves
    (Analysis.IsRun Turkish.grammar Condition.holds evdekiMoves c ∧
      (Step.segments Turkish.grammar (c 8).steps).map List.length = [4, 2, 2] ∧
      ∀ segment ∈ Step.segments Turkish.grammar (c 8).steps,
        Step.IsExclusive Turkish.grammar segment) ∧
    ofDictionary {} {} "ben [P:Pron; A:RootChange]".toList = .ok ben ∧
      ∃ results, ben.parse "bendim".toList = .ok results ∧
        results.map (fun a => (Step.segments ben.grammar a.steps).map List.length) = [[4, 3]] ∧
        ∀ a ∈ results, ∀ segment ∈ Step.segments ben.grammar a.steps,
          segment.Pairwise fun s t => s.sharesGroup ben.grammar t = false := by
  intro start c
  have hrun : Analysis.IsRun Turkish.grammar Condition.holds evdekiMoves c :=
    Analysis.isRun_afterMoves (by decide +kernel)
  have hz : ofDictionary {} {} "ben [P:Pron; A:RootChange]".toList = .ok ben :=
    ofDictionary_evaluate _
  obtain ⟨results, hparse, hlengths⟩ := exists_of_finds hz "bendim".toList
    (fun results => results.map (fun a => (Step.segments ben.grammar a.steps).map List.length)
      = [[4, 3]]) (by decide +kernel)
  exact ⟨⟨hrun, by decide +kernel, segments_exclusive.1 _ _ _ _ hrun 8 (by decide)⟩, hz, results,
    hparse, of_decide_eq_true hlengths, segments_exclusive.2 _ _ _ _ _ _ hz hparse⟩

end Analyzer

end TurkishMorphology
