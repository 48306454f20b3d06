import MonkeyLexis.Command.Outcome
import MonkeyLexis.Listing
import MonkeyLexis.Text.Lines

/-!
# The listing command

`monkey-lex` lists the tokens of one source, which is a file or a text given on
the command line, never both. In a file line ends are unified; a given text is
taken as it is, and the command fails if the option for it came without a text. A
missing file and malformed bytes are reported; all other failures to read are left
to the caller. On request illegal characters count as an error too.
-/

namespace MonkeyLexis
namespace Command
namespace Lex

open CommandLine

inductive Choice where
  | help
  | expression
  | showEnd
  | strict
  deriving DecidableEq, Repr

/-- The option that gives the text itself. -/
def expressionSwitch : Switch Choice := ⟨.expression, some 'e', "expr", true⟩

def switches : List (Switch Choice) :=
  [⟨.help, some 'h', "help", false⟩, expressionSwitch, ⟨.showEnd, none, "show-eof", false⟩,
    ⟨.strict, none, "strict", false⟩]

def pathLabel : Text := "path"

def manual : Manual where
  program := "monkey-lex"
  usage := "usage: monkey-lex [-h] [-e EXPR] [--show-eof] [--strict] [path]\n"
  description :=
    "Lex Monkey source and print tokens\n\n" ++
    "positional arguments:\n" ++
    "  path                  Path to Monkey source\n\n" ++
    "options:\n" ++
    "  -h, --help            show this help message and exit\n" ++
    "  -e EXPR, --expr EXPR  Lex this text instead of a file\n" ++
    "  --show-eof            Also print the EOF token that ends each line\n" ++
    "  --strict              Exit with status 1 if any ILLEGAL token was found\n"

/-- Where the text comes from. The option for a text may have been used without one. -/
inductive Source where
  | expression (text? : Option Text)
  | file (path : Path)
  deriving DecidableEq, Repr

/-- What the command line has chosen so far. -/
structure Draft where
  source? : Option Source := none
  showEnd : Bool := false
  strict : Bool := false
  deriving DecidableEq, Repr

structure Settings where
  source : Source
  showEnd : Bool
  strict : Bool
  deriving DecidableEq, Repr

/-- The effect of one event. A text and a path exclude each other, whichever comes first. -/
def act (d : Draft) : Event Choice → Except Stop Draft
  | .flag .help => .error .help
  | .flag .showEnd => .ok { d with showEnd := true }
  | .flag .strict => .ok { d with strict := true }
  | .value .expression text? =>
    match d.source? with
    | some (.file _) => .error (.misuse (.conflict expressionSwitch.label pathLabel))
    | _ => .ok { d with source? := some (.expression text?) }
  | .operand word =>
    match d.source? with
    | some (.expression _) => .error (.misuse (.conflict pathLabel expressionSwitch.label))
    | _ => .ok { d with source? := some (.file (.ofText word)) }
  | _ => .ok d

/-- What the command line asks for: exactly one source, and no word left over. -/
def settings (words : List Text) : Except Stop Settings :=
  let reading := read switches .free words
  match reading.interpret act .misuse {} with
  | .error stop => .error stop
  | .ok draft =>
    match draft.source?, reading.leftovers with
    | none, _ => .error (.misuse (.noneGiven [pathLabel, expressionSwitch.label]))
    | some _, word :: words => .error (.misuse (.unrecognized (word :: words)))
    | some source, [] => .ok ⟨source, draft.showEnd, draft.strict⟩

def report (message : Text) : Text := "[monkey-lex:error] " ++ message ++ "\n"

/-- The listing of a text, and the verdict on its illegal characters. -/
def listText (s : Settings) (text : Text) : Outcome :=
  let entries := Listing.entries s.showEnd (Text.lines text)
  let illegal := Listing.illegalCount entries
  if s.strict && illegal != 0 then
    .returned
      (Listing.written entries ++ report (Numeral.decimal illegal ++ " illegal character(s)")) 1
  else .returned (Listing.written entries) 0

def listFile (s : Settings) (path : Path) (content : Except FileSystem.ReadFailure Bytes) :
    Outcome :=
  match content with
  | .error .notFound => .returned (report ("file not found: " ++ path.text)) 1
  | .error failure => .failed [] (.file path failure)
  | .ok bytes =>
    match Utf8.decode bytes with
    | .error fault =>
      .returned
        (report ("not valid UTF-8: " ++ path.text ++ " (" ++ fault.reason.message ++ ")")) 1
    | .ok text => listText s (Text.unifyLineEnds text)

/-- What the command comes to: an outcome, or the outcome for each result of reading a file. -/
inductive Plan where
  | finished (outcome : Outcome)
  | reading (path : Path) (outcome : Except FileSystem.ReadFailure Bytes → Outcome)

/-- The plan for some words. No file is read unless the words name one. -/
def plan (words : List Text) : Plan :=
  match settings words with
  | .error stop => .finished (manual.outcome stop)
  | .ok s =>
    match s.source with
    | .expression (some text) => .finished (listText s text)
    | .expression none => .finished (.failed [] .expressionMissing)
    | .file path => .reading path (listFile s path)

/-- The command with some words, where `content` reads files. -/
def run (content : Path → Except FileSystem.ReadFailure Bytes) (words : List Text) : Outcome :=
  match plan words with
  | .finished outcome => outcome
  | .reading path outcome => outcome (content path)

theorem run_of_stop {content : Path → Except FileSystem.ReadFailure Bytes} {words : List Text}
    {stop : Stop} (h : settings words = .error stop) :
    run content words = manual.outcome stop := by
  simp [run, plan, h]

theorem run_of_expression {content : Path → Except FileSystem.ReadFailure Bytes}
    {words : List Text} {s : Settings} {text : Text} (h : settings words = .ok s)
    (hs : s.source = .expression (some text)) : run content words = listText s text := by
  simp [run, plan, h, hs]

theorem run_of_file {content : Path → Except FileSystem.ReadFailure Bytes} {words : List Text}
    {s : Settings} {path : Path} (h : settings words = .ok s) (hs : s.source = .file path) :
    run content words = listFile s path (content path) := by
  simp [run, plan, h, hs]

end Lex
end Command
end MonkeyLexis
