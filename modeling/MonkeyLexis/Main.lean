import MonkeyLexis.Command.Interact
import MonkeyLexis.Command.Lex

/-!
# The program

The first word chooses the command, `monkey-lex` or `monkey`; the others are the
words of its command line. Only this module reads and writes.
-/

namespace MonkeyLexis
namespace Main

open Command

def content (p : Path) : IO (Except FileSystem.ReadFailure Bytes) := do
  if p.text.contains '\x00' then return .error .nullInPath
  try
    let bytes ← IO.FS.readBinFile (String.ofList p.text)
    return .ok bytes.toList
  catch error =>
    match error with
    | .noFileOrDirectory .. => return .error .notFound
    | .inappropriateType (some _) .. => return .error .notDirectory
    | .inappropriateType none .. => return .error .isDirectory
    | .invalidArgument .. => return .error .nameTooLong
    | other => throw other

/-- Writes what is left to write and gives the status of the program. -/
def conclude (o : Outcome) : IO UInt32 := do
  IO.print (String.ofList o.stdout)
  IO.eprint (String.ofList o.stderr)
  match o.ending with
  | .returned status | .stopped status => return status.toUInt32
  | .failed failure =>
    IO.eprintln (String.ofList failure.message)
    return 1

def lex (words : List Text) : IO UInt32 := do
  match Lex.plan words with
  | .finished outcome => conclude outcome
  | .reading path outcome => conclude (outcome (← content path))

/-- The text with further lines of the standard input until it holds a whole line. -/
partial def fill (stdin : IO.FS.Stream) (text : Text) : IO Text := do
  if text.contains '\n' then return text
  let more ← stdin.getLine
  if more.isEmpty then return text
  fill stdin (text ++ Text.unifyLineEnds more.toList)

/-- The session on the standard input, of which `text` has been read. -/
partial def converse (prompt : Text) (text : Text) : IO UInt32 := do
  IO.print (String.ofList prompt)
  (← IO.getStdout).flush
  match (Input.ofText (← fill (← IO.getStdin) text)).nextLine with
  | .ended | .failed _ => return 1
  | .content line rest =>
    match Session.reply? line with
    | none => return 0
    | some shown =>
      IO.print (String.ofList shown)
      converse prompt rest

/-- The user as the environment tells. -/
def identity : IO Identity := do
  let mut known := []
  for name in Identity.nameVariables do
    if let some value ← IO.getEnv (String.ofList name) then
      known := known ++ [(name, value.toList)]
  return ⟨known, .error .missing⟩

def interact (words : List Text) : IO UInt32 := do
  match Interact.settings words with
  | .error stop => conclude (Interact.manual.outcome stop)
  | .ok settings =>
    if settings.greets then
      match (← identity).name with
      | .error description => return ← conclude (.failed [] (.account description))
      | .ok name => IO.println (String.ofList (greeting name))
    match settings.prompt? with
    | some prompt => converse prompt []
    | none => conclude (.failed [] .promptMissing)

/-- The command named by the first word, with the other words. -/
def run : List String → IO UInt32
  | "monkey-lex" :: words => lex (words.map String.toList)
  | "monkey" :: words => interact (words.map String.toList)
  | _ => do
    IO.eprintln "usage: monkey-lex WORD... | monkey WORD..."
    return 2

end Main
end MonkeyLexis

def main (args : List String) : IO UInt32 := MonkeyLexis.Main.run args
