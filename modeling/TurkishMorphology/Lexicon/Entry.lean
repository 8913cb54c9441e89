import TurkishMorphology.Lexicon.Error
import TurkishMorphology.Lexicon.Inference
/-!
# The line format of dictionaries

A dictionary has one lexeme per line:

    root [P:Primary,Secondary; A:Attribute,Attribute; R:actualRoot]

The bracketed metadata may be missing, its items may come in any order, and a later item of the
same key overrides or adds to an earlier one. Blank lines and lines that start with a number sign
are skipped. Without a part of speech a root in the infinitive `mek` or `mak` is a verb and any
other root a noun. A verb inflects from its root without the infinitive, unless an actual root is
given.

## Main definitions

- `Metadata`, `Metadata.read` — what the brackets say
- `Entry.read` — the lexeme of a line
- `Entry.readAll` — the lexemes of a dictionary text
-/

namespace TurkishMorphology

/-- What the metadata of a line says so far. -/
structure Metadata where
  pos : Option PrimaryPos := none
  secondary : Option SecondaryPos := none
  attributes : LexemeAttributes := ∅
  actualRoot : Option Word := none

namespace Metadata

def tags (value : Word) : List Word := (value.pieces ',').map Word.trim

/-- Adds the parts of speech of a `P` item: the first tag is the primary one, the second, if
    present, the secondary one. -/
def addPartsOfSpeech (line : Nat) (m : Metadata) (value : Word) : Except LexiconError Metadata := do
  let given := tags value
  let primary := given.headD []
  let some pos := PrimaryPos.ofTag? primary.text | throw (.unknownPos line primary)
  match given[1]? with
  | none => return { m with pos }
  | some second =>
    let some secondary := SecondaryPos.ofTag? second.text | throw (.unknownPos line second)
    return { m with pos, secondary }

/-- Adds one tag of an `A` item. -/
def addAttribute (line : Nat) (m : Metadata) (tag : Word) : Except LexiconError Metadata :=
  match LexemeAttribute.ofTag? tag.text with
  | some a => .ok { m with attributes := m.attributes.insert a }
  | none => .error (.unknownAttribute line tag)

/-- Adds one item, which has the form `KEY:value`. -/
def addItem (line : Nat) (m : Metadata) (item : Word) : Except LexiconError Metadata :=
  match item.splitOnce? ':' with
  | none => .error (.malformedLine line (.keyExpected item))
  | some (key, value) =>
    match Word.trim key with
    | ['P'] => addPartsOfSpeech line m (Word.trim value)
    | ['A'] =>
      ((tags (Word.trim value)).filter fun t => !t.isEmpty).foldlM (addAttribute line) m
    | ['R'] => .ok { m with actualRoot := some (Word.trim value) }
    | other => .error (.malformedLine line (.unknownKey other))

/-- Reads the text between the brackets. -/
def read (line : Nat) (text : Word) : Except LexiconError Metadata :=
  (((text.pieces ';').map Word.trim).filter fun item => !item.isEmpty).foldlM (addItem line) {}

end Metadata

namespace Entry

/-- A verb in the infinitive without its ending. -/
def infinitiveStem? (root : Word) : Option Word :=
  ((Word.dropEnd? ['m', 'e', 'k'] root).or (Word.dropEnd? ['m', 'a', 'k'] root)).filter
    fun stem => !stem.isEmpty

/-- Divides a line into its root and the text between the brackets. -/
def split (line : Nat) (text : Word) : Except LexiconError (Word × Word) :=
  match text.splitOnce? '[' with
  | none => .ok (text, [])
  | some (root, rest) =>
    match Word.dropEnd? [']'] rest with
    | some inner => .ok (Word.trim root, inner)
    | none => .error (.malformedLine line .unclosedMetadata)

/-- The lexeme of a root with its metadata. -/
def toLexeme (root : Word) (m : Metadata) : Lexeme :=
  let stem := infinitiveStem? root
  let pos := m.pos.getD (if stem.isSome then .verb else .noun)
  let lemmaRoot := m.actualRoot.getD (if pos = .verb then stem.getD root else root)
  { citation := root, lemmaRoot, pos, secondary := m.secondary
    attributes := inferAttributes lemmaRoot pos m.secondary m.attributes }

/-- Reads a line, which has the given number in error messages; blank lines and comments hold no
    lexeme. -/
def read (text : Word) (line : Nat) : Except LexiconError (Option Lexeme) :=
  let text := Word.trim text
  if text.isEmpty || text.head? == some '#' then .ok none
  else do
    let (root, inner) ← split line text
    if root.isEmpty || root.any Text.isSpace then
      throw (.malformedLine line (.invalidRoot root))
    let m ← Metadata.read line inner
    return some (toLexeme root m)

/-- Reads a list of lines, the first of which has the given number. -/
def readLines (number : Nat) : List Word → Except LexiconError (List Lexeme)
  | [] => .ok []
  | line :: rest => do
    let lexeme ← read line number
    let others ← readLines (number + 1) rest
    return lexeme.toList ++ others

def readAll (text : Word) : Except LexiconError (List Lexeme) := readLines 1 text.lines

end Entry

end TurkishMorphology
