import TurkishMorphology.CommandLine
/-!
# The program

Prints the analyses of each word given as an argument, or of each line of standard input if there
is none. The dictionary is the file that the arguments name, or else the one that the environment
names, or else the sample.

## Main definitions

- `main` — the program
-/

namespace TurkishMorphology.CommandLine

def help : String := "tahlil-parse: Morphological parsing of Turkish words.

Usage: tahlil-parse [-d DICT] [--json] [--ascii] [WORD...]

If WORD arguments are given, parses each word.
Otherwise reads words from stdin (one per line).

Options:
  -d, --dict PATH   Dictionary file (default: bundled sample dictionary)
  --json            Print one JSON object per word
  --ascii           Also match roots typed without circumflexes
  -h, --help        Print this help"

/-- The variable that names a dictionary file if no argument does. -/
def dictionaryVariable : String := "TAHLIL_DICT_PATH"

/-- What is said of bytes that are no text. -/
def invalidText : String := "stream did not contain valid UTF-8"

def readDictionary (path : String) : IO DictionaryFile := do
  let text ←
    try
      let bytes ← IO.FS.readBinFile path
      pure <| match String.fromUTF8? bytes with
        | some text => .ok text
        | none => .error invalidText
    catch
      | .noFileOrDirectory .. => pure (.error "No such file or directory (os error 2)")
      | e => pure (.error (toString e))
  return { path, text }

/-- The bytes read so far and all that a stream still holds. -/
partial def readBytes (input : IO.FS.Stream) (bytes : ByteArray) : IO ByteArray := do
  let more ← input.read 4096
  if more.isEmpty then return bytes else readBytes input (bytes ++ more)

/-- The words on the lines of standard input, up to a line that is no text. -/
def readWords : IO (List Word) := do
  let bytes ← readBytes (← IO.getStdin) .empty
  let mut words := []
  for line in bytes.toList.splitOn '\n'.toUInt8 do
    match String.fromUTF8? ⟨line.toArray⟩ with
    | some text =>
      let word := Word.trim text.toList
      if !word.isEmpty then words := word :: words
    | none =>
      IO.eprintln ("error reading stdin: " ++ invalidText)
      break
  return words.reverse

/-- Ends the program with a message. -/
def stop (message : String) : IO UInt32 := do
  IO.eprintln ("error: " ++ message)
  return 1

/-- Prints the outcome of each word; the result tells whether some word failed. -/
def report (z : Analyzer) (json : Bool) (words : List Word) : IO UInt32 := do
  let outcomes := z.parseAll words
  for o in outcomes do
    IO.println (if json then (o.toJson z.grammar).render else o.render z.grammar)
  return if outcomes.any fun o => !o.result.isOk then 2 else 0

/-- Runs the program on the arguments that are left after the dictionary is taken out. -/
def run (dictionary : Option String) (args : List String) : IO UInt32 := do
  let (json, args) := takeFlag "--json" args
  let (ascii, args) := takeFlag "--ascii" args
  if let some option := args.find? fun a => a.startsWith "--" then
    return ← stop (ArgumentError.unknownOption option).message
  let path ← match dictionary with
    | some path => pure (some path)
    | none => IO.getEnv dictionaryVariable
  let file ← path.mapM readDictionary
  match analyzer file { circumflexFree := ascii } with
  | .error e => stop e.message
  | .ok z =>
    let words ← if args.isEmpty then readWords
      else pure (args.map String.toList)
    report z json words

end TurkishMorphology.CommandLine

open TurkishMorphology.CommandLine in
/-- Prints the analyses of the words it is given. -/
def main (args : List String) : IO UInt32 := do
  match takeDictionary args with
  | .error e => stop e.message
  | .ok (dictionary, args) =>
    if wantsHelp args then
      IO.println help
      return 0
    else run dictionary args
