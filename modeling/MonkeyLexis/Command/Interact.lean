import MonkeyLexis.Command.Identity
import MonkeyLexis.Command.Outcome
import MonkeyLexis.Session

/-!
# The interactive command

`monkey` greets the user, unless told not to, and holds a session on its standard
input. The name is looked up before anything is shown or read.
-/

namespace MonkeyLexis
namespace Command
namespace Interact

open CommandLine

inductive Choice where
  | help
  | prompt
  | noGreeting
  deriving DecidableEq, Repr

def switches : List (Switch Choice) :=
  [⟨.help, some 'h', "help", false⟩, ⟨.prompt, none, "prompt", true⟩,
    ⟨.noGreeting, none, "no-greeting", false⟩]

def defaultPrompt : Text := "monkey> "

def manual : Manual where
  program := "monkey"
  usage := "usage: monkey [-h] [--prompt PROMPT] [--no-greeting]\n"
  description :=
    "Interactive Monkey token printer\n\n" ++
    "options:\n" ++
    "  -h, --help       show this help message and exit\n" ++
    "  --prompt PROMPT  Prompt string (default: 'monkey> ')\n" ++
    "  --no-greeting    Do not print the greeting line on startup\n"

/-- What the command is to do. The option for the prompt may have been used without a text. -/
structure Settings where
  prompt? : Option Text := some defaultPrompt
  greets : Bool := true
  deriving DecidableEq, Repr

def act (s : Settings) : Event Choice → Except Stop Settings
  | .flag .help => .error .help
  | .flag .noGreeting => .ok { s with greets := false }
  | .value .prompt text? => .ok { s with prompt? := text? }
  | _ => .ok s

/-- What the command line asks for. There is no room for an operand. -/
def settings (words : List Text) : Except Stop Settings :=
  let reading := read switches .closed words
  match reading.interpret act .misuse {} with
  | .error stop => .error stop
  | .ok s =>
    match reading.leftovers with
    | [] => .ok s
    | word :: words => .error (.misuse (.unrecognized (word :: words)))

def converse (prompt : Text) (input : Input) : Outcome :=
  let transcript := Session.run prompt input
  match transcript.ending.status with
  | .ok status => .returned transcript.output status
  | .error fault => .failed transcript.output (.input fault)

/-- The outcome with some prompt on the bytes of an input. Without a prompt nothing can be shown, so
nothing is read either. -/
def converseOn (stdin : Bytes) : (prompt? : Option Text) → Outcome
  | some prompt => converse prompt (.ofBytes stdin)
  | none => .failed [] .promptMissing

/-- The command with some words, for a user, on the bytes of its standard input. -/
def run (user : Identity) (stdin : Bytes) (words : List Text) : Outcome :=
  match settings words with
  | .error stop => manual.outcome stop
  | .ok s =>
    let outcome := converseOn stdin s.prompt?
    if s.greets then
      match user.name with
      | .error description => .failed [] (.account description)
      | .ok name => outcome.after (greeting name ++ "\n")
    else outcome

end Interact
end Command
end MonkeyLexis
