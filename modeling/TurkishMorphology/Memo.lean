import TurkishMorphology.Analyzer
import Std.Data.HashMap
/-!
# Remembering analyses

A memo keeps the analyses of words that were parsed before. Only analyses are kept: a word whose
analysis fails is analysed anew each time. Clearing a memo forgets the analyses but not how often
they were of use.

## Main definitions

- `Memo` — analyses by word, and the number of times they were of use
- `Memo.consult` — answers a word through the memo, asking for what it does not know
- `Memo.parse` — the same with a parser that is a function
- `Memo.clear`
-/

namespace TurkishMorphology

/-- Answers by word, and the number of times they were of use. The number is unbounded; a counter of
    64 bits shows it as long as it is below `2 ^ 64`. -/
structure Memo (α : Type) where
  answers : Std.HashMap Word α := {}
  hits : Nat := 0

namespace Memo

variable {α ε : Type}

def empty : Memo α := {}

instance : Inhabited (Memo α) := ⟨empty⟩

def size (m : Memo α) : Nat := m.answers.size

def isEmpty (m : Memo α) : Bool := m.answers.isEmpty

/-- Answers a word from the memo, or asks for its answer and keeps it. Asking may have effects. -/
def consult {m : Type → Type} [Monad m] (ask : Word → m (Except ε α)) (memo : Memo α)
    (word : Word) : m (Except ε α × Memo α) :=
  match memo.answers[word]? with
  | some answer => return (.ok answer, { memo with hits := memo.hits + 1 })
  | none => do
    match ← ask word with
    | .ok answer => return (.ok answer, { memo with answers := memo.answers.insert word answer })
    | .error e => return (.error e, memo)

/-- Answers a word from the memo, or asks `parse` and keeps its answer. -/
def parse (parse : Word → Except ε α) (m : Memo α) (word : Word) : Except ε α × Memo α :=
  Id.run (m.consult (fun word => pure (parse word)) word)

def clear (m : Memo α) : Memo α := { m with answers := {} }

end Memo

end TurkishMorphology
