import TurkishMorphology.Grammar.Template
import TurkishMorphology.Root
/-!
# Grammars

A grammar has states, and suffixes that lead from state to state. A suffix has one or more forms,
each spelled by a template and guarded by conditions on the analysis that uses it. Parts of speech
are mapped to the states in which their roots begin.

States, suffixes, forms and groups are numbered in the order in which they are added, and are stored
at their numbers. States, suffixes and groups are found by name in indexes of their own.

## Main definitions

- `StateId`, `SuffixId`, `FormId`, `GroupId` — numbers of the parts of a grammar
- `Condition` — what a form may ask of an analysis
- `State`, `Suffix`, `Form`, `Edge`, `Grammar` — the parts, and the whole
- `Grammar.edgesFrom`, `Grammar.edges` — the edges of a state, and of all states
- `Grammar.stateId`, `suffixId`, `findForm`, `rootState` — looking things up

## Design notes

A number that the grammar did not give out reads as a part without content, so looking up by
number is total.

Numbers are unbounded. Numbers of 32 bits serve as well for a grammar with fewer than `2 ^ 32` parts
of each kind; beyond that, they would be given out twice.
-/

namespace TurkishMorphology

structure StateId where
  index : Nat
deriving DecidableEq, Repr, Inhabited

structure SuffixId where
  index : Nat
deriving DecidableEq, Repr, Inhabited

structure FormId where
  index : Nat
deriving DecidableEq, Repr, Inhabited

structure GroupId where
  index : Nat
deriving DecidableEq, Repr, Inhabited

/-- What a form may ask of an analysis. -/
inductive Condition where
  | always
  | never
  /-- The suffix was taken since the last derivation. -/
  | after (suffix : SuffixId)
  /-- Some of the suffixes was taken since the last derivation. -/
  | afterAny (suffixes : List SuffixId)
  /-- The last derivation was made with the suffix. -/
  | afterDerivation (suffix : SuffixId)
  /-- The last step took the suffix. -/
  | followedBy (suffix : SuffixId)
  /-- The attribute applies to the surface built so far. -/
  | lexemeHas (a : LexemeAttribute)
  /-- The lexeme of the root has the attribute, whatever came after it. -/
  | rootHas (a : LexemeAttribute)
  /-- The lemma root is among the words. -/
  | rootAmong (lemmaRoots : List Word)
  /-- The root is spelled as its lemma root. -/
  | rootUnaltered
  /-- Some derivation was made. -/
  | derived
  /-- No step was taken. -/
  | fresh
  /-- No step added letters. -/
  | unspoken
  | both (p q : Condition)
  | either (p q : Condition)
  | negation (p : Condition)
deriving DecidableEq, Inhabited

/-- What a state means for a word. -/
inductive StateKind where
  /-- A word may end here. -/
  | terminal
  /-- Leaving the state starts a new derivation. -/
  | derivational
  /-- The state only leads on to others. -/
  | transfer
  | nonTerminal
deriving DecidableEq, Repr, Inhabited

structure State where
  name : String
  kind : StateKind
  pos : PrimaryPos
deriving DecidableEq, Inhabited

namespace State

def isTerminal (s : State) : Bool := s.kind == .terminal

def isDerivational (s : State) : Bool := s.kind == .derivational

end State

structure Suffix where
  name : String
  /-- How the suffix is printed; without it the suffix is left out of printed analyses. -/
  printed : Option String := none
  /-- At most one suffix of a group is taken between derivations. -/
  group : Option GroupId := none
  /-- Whether the suffix may be taken again before the next derivation. -/
  repeats : Bool := false
  forms : List FormId := []
deriving DecidableEq, Inhabited

/-- Whether the suffix only leads from state to state. -/
def Suffix.isFree (s : Suffix) : Bool := s.printed.isNone

/-- What a form asks of the analyses around it. -/
structure Guards where
  /-- Asked of the analysis that the form is added to. -/
  before : Option Condition := none
  /-- Asked of the analysis after the next step. -/
  next : Option Condition := none
  /-- Asked of the analysis after the step that leaves the derivation of the form. -/
  leaving : Option Condition := none
deriving DecidableEq, Inhabited

/-- A spelling of a suffix. -/
structure Form where
  suffix : SuffixId
  template : Template
  guards : Guards := {}
deriving DecidableEq, Inhabited

/-- A suffix that leads from one state to another. -/
structure Edge where
  source : StateId
  suffix : SuffixId
  target : StateId
deriving DecidableEq, Inhabited

/-- A way out of a state: an edge without its source. -/
structure Exit where
  suffix : SuffixId
  target : StateId
deriving DecidableEq, Inhabited

/-- States, suffixes that connect them, and the states in which roots begin. In a list that is
    looked up, an earlier item hides the later ones for the same key. -/
structure Grammar where
  states : Array State := #[]
  suffixes : Array Suffix := #[]
  forms : Array Form := #[]
  groups : Array String := #[]
  /-- For each state the ways out of it, in the order in which they were added. -/
  exits : Array (List Exit) := #[]
  stateIndex : List (String × StateId) := []
  suffixIndex : List (String × SuffixId) := []
  groupIndex : List (String × GroupId) := []
  rootStates : List ((PrimaryPos × Option SecondaryPos) × StateId) := []
deriving DecidableEq, Inhabited

/-- What can be wrong with the making or the use of a grammar. -/
inductive GrammarError where
  | invalidTemplate (template : Word) (fault : TemplateFault)
  | duplicateState (name : String)
  | duplicateSuffix (name : String)
  | unknownState (name : String)
  | unknownSuffix (name : String)
  | unknownForm (suffix : String) (template : Word)
  /-- Several forms of the suffix have the template. -/
  | ambiguousForm (suffix : String) (template : Word)
  | noRootState (pos : PrimaryPos)
deriving DecidableEq

def GrammarError.message : GrammarError → String
  | .invalidTemplate template fault =>
    "invalid suffix form template `" ++ template.text ++ "`: " ++ fault.message
  | .duplicateState name => "state `" ++ name ++ "` is defined twice"
  | .duplicateSuffix name => "suffix `" ++ name ++ "` is defined twice"
  | .unknownState name => "unknown state `" ++ name ++ "`"
  | .unknownSuffix name => "unknown suffix `" ++ name ++ "`"
  | .unknownForm suffix template =>
    "suffix `" ++ suffix ++ "` has no form `" ++ template.text ++ "`"
  | .ambiguousForm suffix template =>
    "suffix `" ++ suffix ++ "` has several forms `" ++ template.text ++ "`"
  | .noRootState pos => "no root state for part of speech " ++ pos.tag

namespace Grammar

def empty : Grammar := {}

def state (g : Grammar) (id : StateId) : State := g.states.getD id.index default

def suffix (g : Grammar) (id : SuffixId) : Suffix := g.suffixes.getD id.index default

def form (g : Grammar) (id : FormId) : Form := g.forms.getD id.index default

def groupName (g : Grammar) (id : GroupId) : String := g.groups.getD id.index default

def stateIds (g : Grammar) : List StateId := (List.range g.states.size).map StateId.mk

/-- The edges that leave a state, in the order in which they were added. -/
def edgesFrom (g : Grammar) (id : StateId) : List Edge :=
  (g.exits.getD id.index []).map fun x => ⟨id, x.suffix, x.target⟩

/-- All edges, state by state. -/
def edges (g : Grammar) : List Edge :=
  ((List.range g.exits.size).map StateId.mk).flatMap g.edgesFrom

def stateId (g : Grammar) (name : String) : Except GrammarError StateId :=
  match g.stateIndex.lookup name with
  | some id => .ok id
  | none => .error (.unknownState name)

def suffixId (g : Grammar) (name : String) : Except GrammarError SuffixId :=
  match g.suffixIndex.lookup name with
  | some id => .ok id
  | none => .error (.unknownSuffix name)

theorem stateId_eq_ok_iff {g : Grammar} {name : String} {id : StateId} :
    g.stateId name = .ok id ↔ g.stateIndex.lookup name = some id := by
  rw [stateId]
  cases g.stateIndex.lookup name <;> simp

theorem suffixId_eq_ok_iff {g : Grammar} {name : String} {id : SuffixId} :
    g.suffixId name = .ok id ↔ g.suffixIndex.lookup name = some id := by
  rw [suffixId]
  cases g.suffixIndex.lookup name <;> simp

/-- The only form of a suffix with the given template. -/
def findForm (g : Grammar) (id : SuffixId) (template : Word) : Except GrammarError FormId :=
  let s := g.suffix id
  match s.forms.filter fun f => (g.form f).template.text == template with
  | [f] => .ok f
  | [] => .error (.unknownForm s.name template)
  | _ => .error (.ambiguousForm s.name template)

/-- The state in which roots of a part of speech begin. -/
def rootStateOf (g : Grammar) (pos : PrimaryPos) : Except GrammarError StateId :=
  match g.rootStates.lookup (pos, none) with
  | some s => .ok s
  | none => .error (.noRootState pos)

/-- The state in which a root begins. One for its secondary part of speech comes first. -/
def rootState (g : Grammar) (r : Root) : Except GrammarError StateId :=
  match r.lexeme.secondary.bind fun s => g.rootStates.lookup (r.lexeme.pos, some s) with
  | some s => .ok s
  | none => g.rootStateOf r.lexeme.pos

theorem source_of_mem_edgesFrom {g : Grammar} {id : StateId} {e : Edge} (h : e ∈ g.edgesFrom id) :
    e.source = id := by
  obtain ⟨x, -, rfl⟩ := List.mem_map.mp h
  rfl

/-- No edge leaves a state that the grammar does not have. -/
theorem edgesFrom_of_le {g : Grammar} {id : StateId} (h : g.exits.size ≤ id.index) :
    g.edgesFrom id = [] := by
  rw [edgesFrom, Array.getD_eq_getD_getElem?, Array.getElem?_eq_none h]
  rfl

/-- The edges of a state are those of all edges that leave it. -/
theorem edgesFrom_eq_filter (g : Grammar) (id : StateId) :
    g.edgesFrom id = g.edges.filter fun e => e.source = id := by
  -- A state before the last one of the list, or the last one, or none of the list.
  have hupto (n : Nat) : (((List.range n).map StateId.mk).flatMap g.edgesFrom).filter
      (fun e => e.source = id) = if id.index < n then g.edgesFrom id else [] := by
    induction n with
    | zero => rfl
    | succ n ih =>
      rw [List.range_succ, List.map_append, List.flatMap_append, List.filter_append, ih,
        List.map_singleton, List.flatMap_singleton]
      by_cases hid : id = ⟨n⟩
      · have hall : (g.edgesFrom ⟨n⟩).filter (fun e => e.source = id) = g.edgesFrom ⟨n⟩ :=
          List.filter_eq_self.mpr fun e he =>
            decide_eq_true ((source_of_mem_edgesFrom he).trans hid.symm)
        subst hid
        rw [hall, if_neg (Nat.lt_irrefl n), if_pos (Nat.lt_succ_self n), List.nil_append]
      · have hnone : (g.edgesFrom ⟨n⟩).filter (fun e => e.source = id) = [] :=
          List.filter_eq_nil_iff.mpr fun e he heq =>
            hid ((of_decide_eq_true heq).symm.trans (source_of_mem_edgesFrom he))
        have hne : id.index ≠ n := fun heq => hid (congrArg StateId.mk heq)
        have hiff : id.index < n + 1 ↔ id.index < n := by omega
        simp only [hnone, hiff, List.append_nil]
  rw [edges, hupto]
  by_cases hid : id.index < g.exits.size
  · rw [if_pos hid]
  · rw [if_neg hid, edgesFrom_of_le (Nat.le_of_not_lt hid)]

theorem mem_edgesFrom_iff {g : Grammar} {id : StateId} {e : Edge} :
    e ∈ g.edgesFrom id ↔ e ∈ g.edges ∧ e.source = id := by
  rw [edgesFrom_eq_filter, List.mem_filter, decide_eq_true_eq]

theorem nodup_edgesFrom {g : Grammar} (h : g.edges.Nodup) (id : StateId) :
    (g.edgesFrom id).Nodup := by
  rw [edgesFrom_eq_filter]
  exact List.Pairwise.filter _ h

end Grammar

end TurkishMorphology
