import MonkeyLexis.Text.Quoted

/-!
# Usage errors

The ways in which the words of a command line can be wrong, and the sentence that
reports each. Options appear under their label, which names all spellings.
-/

namespace MonkeyLexis
namespace CommandLine

/-- What is wrong with a command line. -/
inductive UsageError where
  | ambiguous (word : Text) (candidates : List Text)
  | valueMissing (option : Text)
  | valueUnwanted (option value : Text)
  | conflict (argument other : Text)
  | noneGiven (arguments : List Text)
  | unrecognized (words : List Text)
  deriving DecidableEq, Repr

namespace UsageError

def message : UsageError → Text
  | .ambiguous word candidates =>
    "ambiguous option: " ++ word ++ " could match " ++ Text.joined ", " candidates
  | .valueMissing option => "argument " ++ option ++ ": expected one argument"
  | .valueUnwanted option value =>
    "argument " ++ option ++ ": ignored explicit argument " ++ Quoted.encode value
  | .conflict argument other =>
    "argument " ++ argument ++ ": not allowed with argument " ++ other
  | .noneGiven arguments =>
    "one of the arguments " ++ Text.joined " " arguments ++ " is required"
  | .unrecognized words => "unrecognized arguments: " ++ Text.joined " " words

end UsageError
end CommandLine
end MonkeyLexis
