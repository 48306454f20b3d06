import MonkeyLexis.Input
import MonkeyLexis.Scan.Tokens
import MonkeyLexis.Token.Printer

/-!
# Sessions

A session shows its prompt, reads a line and shows the tokens of that line, again
and again. It ends when the line is exactly the word `exit`, when the input ends,
or when the input cannot be read any further. The prompt before the ending is
shown in every case.
-/

namespace MonkeyLexis
namespace Session

inductive Ending where
  | exited
  | inputEnded
  | inputFailed (fault : Utf8.Malformed)
  deriving DecidableEq, Repr

/-- The status of a session that came to an end: 0 if it was told to end, 1 if nothing was left to
read. -/
def Ending.status : Ending → Except Utf8.Malformed Nat
  | .exited => .ok 0
  | .inputEnded => .ok 1
  | .inputFailed fault => .error fault

/-- What a session showed, how it ended, and the text that it left unread. -/
structure Transcript where
  output : Text
  ending : Ending
  unread : Text
  deriving DecidableEq, Repr

/-- The line that ends a session. -/
def exitWord : Text := "exit"

/-- What is shown for a line: its tokens, each on a line of its own. -/
def echo (line : Text) : Text := (lexemes line).flatMap Token.displayLine

/-- The reply to a line, unless the line ends the session. -/
def reply? (line : Text) : Option Text := if line = exitWord then none else some (echo line)

def run (prompt : Text) (input : Input) : Transcript :=
  match _h : input.nextLine with
  | .ended => ⟨prompt, .inputEnded, []⟩
  | .failed fault => ⟨prompt, .inputFailed fault, []⟩
  | .content line rest =>
    match reply? line with
    | none => ⟨prompt, .exited, rest⟩
    | some shown =>
      let later := run prompt ⟨rest, input.fault?⟩
      { later with output := prompt ++ shown ++ later.output }
termination_by input.text.length
decreasing_by exact Input.length_rest_lt _h

end Session
end MonkeyLexis
