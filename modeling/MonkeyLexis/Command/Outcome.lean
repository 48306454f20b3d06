import MonkeyLexis.CommandLine.Reading
import MonkeyLexis.FileSystem.Tree

/-!
# Outcomes of commands

A command writes to two streams and then returns a status, stops at once with a
status, or fails for a cause that it does not handle. Help and usage errors stop a
command: help goes to the first stream with status 0, a usage error to the second
with status 2. Writing a text to a stream never fails; a prompt that is no text is
refused by the stream, here in the words of a stream that is kept in memory.
-/

namespace MonkeyLexis
namespace Command

open CommandLine

/-- A cause that a command leaves to its caller. -/
inductive Failure where
  | file (path : Path) (failure : FileSystem.ReadFailure)
  | input (fault : Utf8.Malformed)
  | account (description : Text)
  | expressionMissing
  | promptMissing
  deriving DecidableEq, Repr

def Failure.message : Failure → Text
  | .file path failure => failure.message path.text
  | .input fault => fault.message
  | .account description => description
  | .expressionMissing => "'list' object has no attribute 'split'"
  | .promptMissing => "string argument expected, got 'list'"

inductive Ending where
  | returned (status : Nat)
  | stopped (status : Nat)
  | failed (failure : Failure)
  deriving DecidableEq, Repr

/-- What a command writes to its two streams and how it ends. -/
structure Outcome where
  stdout : Text
  stderr : Text
  ending : Ending
  deriving DecidableEq, Repr

namespace Outcome

def returned (stdout : Text) (status : Nat) : Outcome := ⟨stdout, [], .returned status⟩

def failed (stdout : Text) (failure : Failure) : Outcome := ⟨stdout, [], .failed failure⟩

def after (earlier : Text) (o : Outcome) : Outcome := { o with stdout := earlier ++ o.stdout }

/-- The outcome of a whole program that consists of the command: a return stops the program. -/
def ofProgram (o : Outcome) : Outcome :=
  match o.ending with
  | .returned status => { o with ending := .stopped status }
  | _ => o

end Outcome

/-- What a command tells about itself: its name, a line on its usage and a longer description. -/
structure Manual where
  program : Text
  usage : Text
  description : Text

def Manual.help (m : Manual) : Text := m.usage ++ "\n" ++ m.description

/-- Why a command line does not lead to any work. -/
inductive Stop where
  | help
  | misuse (error : UsageError)
  deriving DecidableEq, Repr

def Manual.outcome (m : Manual) : Stop → Outcome
  | .help => ⟨m.help, [], .stopped 0⟩
  | .misuse error =>
    ⟨[], m.usage ++ m.program ++ ": error: " ++ error.message ++ "\n", .stopped 2⟩

end Command
end MonkeyLexis
