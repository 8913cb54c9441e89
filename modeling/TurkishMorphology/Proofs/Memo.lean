import TurkishMorphology.Memo
import TurkishMorphology.Proofs.Result
import Mathlib.Data.List.Count
import Mathlib.Data.List.DropRight
import Mathlib.Data.List.Induction
/-!
# What a memo makes of a parser

A session parses words through a memo and clears it at any time. All that can be seen of the memo
is said in terms of the commands alone: its answers are those of the parser inside, and what it
holds, whom it asks and how often it was of use follow from the words parsed since it was last
cleared.

## Main definitions

- `Memo.Command`, `Memo.Session` — what is done with a memo, and what comes of it
- `Memo.noting` — a parser that notes the words it is asked
- `Memo.Refines` — what a session has to do with its parser

## Main statements

- `Memo.consult_noting` — parsing a word through a memo, and what is asked on the way
- `Memo.Session.getElem?_answers_eq_some_iff` — what the memo of a session holds
- `Memo.session_refines` — every session refines its parser
-/

namespace TurkishMorphology.Memo

variable {α ε : Type} {inner : Word → Except ε α} {word : Word}

/-- What is done with a memo. -/
inductive Command where
  | parse (word : Word)
  | clear
deriving DecidableEq

namespace Command

/-- The words that are parsed. -/
def words (commands : List Command) : List Word :=
  commands.filterMap fun
    | .parse word => some word
    | .clear => none

/-- The commands after the last one that clears the memo. -/
def sinceClear (commands : List Command) : List Command :=
  commands.rtakeWhile fun c => c ≠ .clear

end Command

/-- A parser that notes the words it is asked. -/
def noting (inner : Word → Except ε α) (word : Word) : StateM (List Word) (Except ε α) := do
  modify fun asked => asked ++ [word]
  return inner word

/-- A memo in use: the words that the parser inside was asked, and the answers to the words that
    were parsed. -/
structure Session (α ε : Type) where
  memo : Memo α := {}
  asked : List Word := []
  answers : List (Except ε α) := []

namespace Session

def obey (inner : Word → Except ε α) (s : Session α ε) : Command → Session α ε
  | .parse word =>
    let ((answer, memo), asked) := Id.run ((s.memo.consult (noting inner) word).run s.asked)
    { memo, asked, answers := s.answers ++ [answer] }
  | .clear => { s with memo := s.memo.clear }

def run (inner : Word → Except ε α) (commands : List Command) : Session α ε :=
  commands.foldl (obey inner) {}

end Session

open Command

/-- The words that a command makes a memo ask, after other commands: a word that is parsed, unless
    it was answered since the memo was last cleared. -/
def toAsk (inner : Word → Except ε α) (before : List Command) : Command → List Word
  | .parse word => if word ∈ words (sinceClear before) ∧ (inner word).isOk then [] else [word]
  | .clear => []

/-- What a session has to do with the parser inside. -/
structure Refines (inner : Word → Except ε α) (commands : List Command) : Prop where
  /-- Every answer is the parser's. -/
  answers : (Session.run inner commands).answers = (words commands).map inner
  /-- The memo holds the words answered since it was last cleared, with the parser's answers. -/
  contents : ∀ word answer, (Session.run inner commands).memo.answers[word]? = some answer ↔
    word ∈ words (sinceClear commands) ∧ inner word = .ok answer
  asks : ∀ c, (Session.run inner (commands ++ [c])).asked =
    (Session.run inner commands).asked ++ toAsk inner commands c
  /-- As long as the memo is not cleared, a word with an answer is asked once at most, and a word
      without one each time. -/
  asksAgain : ∀ stretch, .clear ∉ stretch → ∃ new,
    (Session.run inner (commands ++ stretch)).asked =
        (Session.run inner commands).asked ++ new ∧
      ∀ word, ((inner word).isOk = true → new.count word ≤ 1) ∧
        ((inner word).isOk = false → new.count word = (words stretch).count word)
  /-- The memo was of use for the words parsed that the parser was not asked. -/
  hits : (Session.run inner commands).memo.hits + (Session.run inner commands).asked.length =
    (words commands).length

theorem parse_of_eq_some {m : Memo α} {answer : α} (h : m.answers[word]? = some answer) :
    m.parse inner word = (.ok answer, { m with hits := m.hits + 1 }) := by
  simp [parse, consult, h]

theorem parse_of_eq_none {m : Memo α} (h : m.answers[word]? = none) :
    m.parse inner word = (inner word,
      { m with answers := (inner word).toOption.elim m.answers (m.answers.insert word) }) := by
  cases hword : inner word <;> simp [parse, consult, h, hword, Except.toOption]

/-- Parsing a word through a memo asks the parser inside for a word that the memo does not hold. -/
theorem consult_noting (m : Memo α) (asked : List Word) :
    Id.run ((m.consult (noting inner) word).run asked) =
      (m.parse inner word, if m.answers[word]?.isSome then asked else asked ++ [word]) := by
  cases h : m.answers[word]? with
  | some answer => simp [parse_of_eq_some h, consult, h]
  | none => cases hword : inner word <;> simp [parse, consult, noting, h, hword]

namespace Command

theorem words_append (before after : List Command) :
    words (before ++ after) = words before ++ words after :=
  List.filterMap_append

theorem words_append_parse (before : List Command) :
    words (before ++ [.parse word]) = words before ++ [word] :=
  words_append ..

theorem words_append_clear (before : List Command) : words (before ++ [.clear]) = words before := by
  rw [words_append]
  exact List.append_nil _

theorem sinceClear_append_parse (before : List Command) :
    sinceClear (before ++ [.parse word]) = sinceClear before ++ [.parse word] :=
  List.rtakeWhile_concat_pos _ _ _ (by simp)

theorem sinceClear_append_clear (before : List Command) : sinceClear (before ++ [.clear]) = [] :=
  List.rtakeWhile_concat_neg _ _ _ (by simp)

end Command

namespace Session

theorem run_append_singleton (commands : List Command) (c : Command) :
    run inner (commands ++ [c]) = obey inner (run inner commands) c :=
  List.foldl_concat ..

theorem obey_parse (s : Session α ε) :
    obey inner s (.parse word) =
      { memo := (s.memo.parse inner word).2
        asked := if s.memo.answers[word]?.isSome then s.asked else s.asked ++ [word]
        answers := s.answers ++ [(s.memo.parse inner word).1] } := by
  simp only [obey, consult_noting]

/-- What the memo of a session holds. -/
theorem getElem?_answers_eq_some_iff {commands : List Command} {answer : α} :
    (run inner commands).memo.answers[word]? = some answer ↔
      word ∈ words (sinceClear commands) ∧ inner word = .ok answer := by
  induction commands using List.reverseRecOn generalizing word answer with
  | nil => simp [run, sinceClear, words]
  | append_singleton commands c ih =>
    rw [run_append_singleton]
    cases c with
    | clear => simp [obey, clear, sinceClear_append_clear, words]
    | parse parsed =>
      rw [obey_parse, sinceClear_append_parse, words_append_parse, List.mem_append,
        List.mem_singleton]
      dsimp only
      cases hheld : (run inner commands).memo.answers[parsed]? with
      | some held =>
        -- The word was parsed before, so nothing new is held.
        have hparsed : parsed ∈ words (sinceClear commands) := (ih.mp hheld).1
        rw [parse_of_eq_some hheld, or_iff_left_of_imp fun heq => heq ▸ hparsed]
        exact ih
      | none =>
        rw [parse_of_eq_none hheld]
        by_cases heq : word = parsed
        · subst heq
          cases hword : inner word with
          | ok answer => simp [Except.toOption]
          | error e => simp [Except.toOption, hheld]
        · rw [or_iff_left heq, ← ih]
          cases inner parsed with
          | ok answer => simp [Except.toOption, Std.HashMap.getElem?_insert, Ne.symm heq]
          | error e => rfl

theorem isSome_getElem?_answers {commands : List Command} :
    (run inner commands).memo.answers[word]?.isSome = true ↔
      word ∈ words (sinceClear commands) ∧ (inner word).isOk = true := by
  rw [Option.isSome_iff_exists]
  simp only [getElem?_answers_eq_some_iff, exists_and_left]
  cases inner word <;> simp [Except.isOk, Except.toBool]

/-- The answer to a word does not depend on what the memo holds. -/
theorem fst_parse_run (commands : List Command) :
    ((run inner commands).memo.parse inner word).1 = inner word := by
  cases hheld : (run inner commands).memo.answers[word]? with
  | some answer => rw [parse_of_eq_some hheld, (getElem?_answers_eq_some_iff.mp hheld).2]
  | none => rw [parse_of_eq_none hheld]

theorem answers_run (commands : List Command) :
    (run inner commands).answers = (words commands).map inner := by
  induction commands using List.reverseRecOn with
  | nil => rfl
  | append_singleton commands c ih =>
    rw [run_append_singleton]
    cases c with
    | clear => rw [words_append_clear, ← ih]; rfl
    | parse word =>
      rw [obey_parse, words_append_parse, List.map_append, fst_parse_run, ih]
      rfl

theorem asked_append_singleton (commands : List Command) (c : Command) :
    (run inner (commands ++ [c])).asked = (run inner commands).asked ++ toAsk inner commands c := by
  rw [run_append_singleton]
  cases c with
  | clear => exact (List.append_nil _).symm
  | parse word =>
    rw [obey_parse, toAsk]
    simp only [isSome_getElem?_answers]
    split
    · exact (List.append_nil _).symm
    · rfl

theorem hits_add_length_asked (commands : List Command) :
    (run inner commands).memo.hits + (run inner commands).asked.length =
      (words commands).length := by
  induction commands using List.reverseRecOn with
  | nil => rfl
  | append_singleton commands c ih =>
    rw [run_append_singleton]
    cases c with
    | clear => rw [words_append_clear, ← ih]; rfl
    | parse word =>
      rw [obey_parse, words_append_parse, List.length_append, List.length_singleton, ← ih]
      cases hheld : (run inner commands).memo.answers[word]? with
      | some answer =>
        rw [parse_of_eq_some hheld]
        simp only [Option.isSome_some, if_true]
        omega
      | none =>
        rw [parse_of_eq_none hheld]
        simp only [Option.isSome_none, Bool.false_eq_true, if_false, List.length_append,
          List.length_singleton]
        omega

/-- While the memo is not cleared, a word without an answer is asked as often as it is parsed. A
    word with an answer is asked once at most, since it is remembered from then on. -/
theorem exists_asked_append (commands stretch : List Command) (hstretch : .clear ∉ stretch) :
    ∃ new, (run inner (commands ++ stretch)).asked = (run inner commands).asked ++ new ∧
      ∀ word, ((inner word).isOk = true → new.count word ≤ 1 ∧
          (word ∈ new → word ∈ words (sinceClear (commands ++ stretch)))) ∧
        ((inner word).isOk = false → new.count word = (words stretch).count word) := by
  induction stretch using List.reverseRecOn with
  | nil => exact ⟨[], by simp, by simp [words]⟩
  | append_singleton stretch c ih =>
    rw [List.mem_append, List.mem_singleton, not_or] at hstretch
    obtain ⟨new, hnew, hcount⟩ := ih hstretch.1
    cases c with
    | clear => exact absurd rfl hstretch.2
    | parse parsed =>
      refine ⟨new ++ toAsk inner (commands ++ stretch) (.parse parsed), ?_, fun word => ?_⟩
      · rw [← List.append_assoc, asked_append_singleton, hnew, List.append_assoc]
      rw [← List.append_assoc, sinceClear_append_parse, words_append_parse, words_append_parse,
        List.count_append, List.count_append, List.mem_append, List.mem_append, toAsk]
      obtain ⟨hanswered, hunanswered⟩ := hcount word
      by_cases heq : word = parsed
      · subst heq
        refine ⟨fun hok => ⟨?_, fun _ => .inr (List.mem_singleton_self _)⟩, fun hfails => ?_⟩
        · by_cases hheld : word ∈ words (sinceClear (commands ++ stretch))
          · simpa [hheld, hok] using (hanswered hok).1
          · have hnone := List.count_eq_zero.mpr fun hword => hheld ((hanswered hok).2 hword)
            simp [hheld, hnone]
        · simp [hfails, hunanswered hfails]
      · have hother : word ∉ [parsed] := by simpa using heq
        have hnone : word ∉ if parsed ∈ words (sinceClear (commands ++ stretch)) ∧
            (inner parsed).isOk = true then [] else [parsed] := by
          split
          · exact List.not_mem_nil
          · exact hother
        rw [List.count_eq_zero.mpr hnone, List.count_eq_zero.mpr hother, or_iff_left hnone]
        exact ⟨fun hok => ⟨(hanswered hok).1, fun hword => .inl ((hanswered hok).2 hword)⟩,
          hunanswered⟩

end Session

/-- Every session refines its parser. Hits are counted without bound. Each command makes one at most,
    so for fewer than `2 ^ 64` commands a counter of 64 bits shows the same. -/
theorem session_refines (inner : Word → Except ε α) (commands : List Command) :
    Refines inner commands where
  answers := Session.answers_run commands
  contents _ _ := Session.getElem?_answers_eq_some_iff
  asks := Session.asked_append_singleton commands
  asksAgain stretch hstretch := by
    obtain ⟨new, hnew, hcount⟩ := Session.exists_asked_append commands stretch hstretch
    exact ⟨new, hnew, fun word => ⟨fun hok => ((hcount word).1 hok).1, (hcount word).2⟩⟩
  hits := Session.hits_add_length_asked commands

end TurkishMorphology.Memo
