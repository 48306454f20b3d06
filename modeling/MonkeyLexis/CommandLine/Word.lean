import MonkeyLexis.CommandLine.UsageError
import MonkeyLexis.Text.DecimalDigit

/-!
# Words of a command line

Taken alone, a word uses an option, looks like an option that nobody knows, or is
plain. Two hyphens name an option by its full name or by the beginning of just
one name, and a value may follow an equals sign. One hyphen and a letter name a
short option, and the rest of the word belongs to it. Among the words that begin
with a hyphen, the lone hyphen, negative numbers and words with a space are plain
unless they name an option.
-/

namespace MonkeyLexis
namespace CommandLine

/-- An option: its name after two hyphens, perhaps a letter after one, and whether it wants a
value. -/
structure Switch (ι : Type) where
  id : ι
  letter? : Option Char
  name : Text
  wantsValue : Bool

namespace Switch

variable {ι : Type}

def spelling (s : Switch ι) : Text := '-' :: '-' :: s.name

/-- All spellings, the short one first. -/
def label (s : Switch ι) : Text :=
  match s.letter? with
  | some letter => ['-', letter, '/'] ++ s.spelling
  | none => s.spelling

end Switch

/-- How a word uses an option: by name, perhaps with a value, or by letter, with what follows the
letter in the word. -/
inductive Use (ι : Type) where
  | named (s : Switch ι) (value? : Option Text)
  | lettered (s : Switch ι) (following : Text)

inductive Word (ι : Type) where
  | plain
  | option (use : Use ι)
  | unknown

/-- A numeral with or without a decimal point, after a minus sign. One line feed may follow. -/
def isNegativeNumber (word : Text) : Bool :=
  match word with
  | '-' :: digits =>
    let digits := if digits.getLast? = some '\n' then digits.dropLast else digits
    match digits.dropWhile DecimalDigit.isDecimalDigit with
    | [] => !digits.isEmpty
    | '.' :: fraction => !fraction.isEmpty && fraction.all DecimalDigit.isDecimalDigit
    | _ => false
  | _ => false

/-- The part before the first equals sign, and the part after it if there is one. -/
def cutAtEquals (t : Text) : Text × Option Text :=
  match t.dropWhile (· != '=') with
  | [] => (t, none)
  | _ :: value => (t.takeWhile (· != '='), some value)

namespace Word

variable {ι : Type}

/-- A word that names no option although it begins with a hyphen. -/
def unnamed (word : Text) : Word ι :=
  if isNegativeNumber word || word.contains ' ' then .plain else .unknown

/-- The option named by `name`, or those that begin with it. -/
def candidates (switches : List (Switch ι)) (name : Text) : List (Switch ι) :=
  match switches.find? (fun s => s.name == name) with
  | some s => [s]
  | none => switches.filter fun s => name.isPrefixOf s.name

def classify (switches : List (Switch ι)) (word : Text) : Except UsageError (Word ι) :=
  match word with
  | '-' :: '-' :: text =>
    let (name, value?) := cutAtEquals text
    match candidates switches name with
    | [] => .ok (unnamed word)
    | [s] => .ok (.option (.named s value?))
    | several => .error (.ambiguous word (several.map Switch.spelling))
  | '-' :: letter :: following =>
    match switches.find? (fun s => s.letter? == some letter) with
    | some s => .ok (.option (.lettered s following))
    | none => .ok (unnamed word)
  | _ => .ok .plain

end Word
end CommandLine
end MonkeyLexis
