import MonkeyLexis.CommandLine.Word

/-!
# Reading a command line

The words before the first `--` are classified first, and an ambiguous one is an
error whatever else the line says. Then the line is read from left to right. An
option that wants a value takes it from its own word or else the next word, which
must be plain. Dashes alone are never a value: an option with `--` attached to it
is used without a text. This is the older of two rules for an attached `--`, which
drops it there as it does between the words; the later one keeps it as the text of
the value. A command may have room for one operand; the first plain
word that is no value fills it. All words after `--` are plain, and the `--`
itself counts as a leftover unless the operand takes it along.

Reading yields events up to the first error. What the events mean is decided by
the command: it acts on them one by one, so that an earlier event can still end
the command before a later error is met.
-/

namespace MonkeyLexis
namespace CommandLine

variable {ι σ ε : Type}

/-- What a command line says, piece by piece. A value has no text if it was `--`. -/
inductive Event (ι : Type) where
  | flag (id : ι)
  | value (id : ι) (text? : Option Text)
  | operand (word : Text)
  | leftover (word : Text)
  deriving DecidableEq, Repr

/-- The events of a command line, and the error that ends them. -/
structure Reading (ι : Type) where
  events : List (Event ι)
  error? : Option UsageError
  deriving DecidableEq, Repr

namespace Reading

def push (event : Event ι) (r : Reading ι) : Reading ι := { r with events := event :: r.events }

def prepend (events : List (Event ι)) (r : Reading ι) : Reading ι :=
  { r with events := events ++ r.events }

def failed (error : UsageError) : Reading ι := ⟨[], some error⟩

/-- The words that no option and no operand took. -/
def leftovers (r : Reading ι) : List Text :=
  r.events.filterMap fun
    | .leftover word => some word
    | _ => none

/-- The state after all events, unless an action on one of them stops the command or the reading
ends with an error. -/
def interpret (act : σ → Event ι → Except ε σ) (onError : UsageError → ε) (initial : σ)
    (r : Reading ι) : Except ε σ :=
  match r.events.foldlM act initial with
  | .error stop => .error stop
  | .ok state => r.error?.elim (.ok state) fun error => .error (onError error)

end Reading

/-- What the options of one word ask for. -/
structure Expansion (ι : Type) where
  events : List (Event ι)
  awaiting? : Option (Switch ι)

namespace Expansion

def complete (events : List (Event ι)) : Expansion ι := ⟨events, none⟩

/-- An option with no text of its own. -/
def bare (s : Switch ι) : Expansion ι :=
  if s.wantsValue then ⟨[], some s⟩ else complete [.flag s.id]

/-- The text of an attached value. Dashes alone separate words and are no text. -/
def attachedText? (value : Text) : Option Text := if value = ['-', '-'] then none else some value

/-- An option with a text that can only be its value. -/
def withValue (s : Switch ι) (value : Text) : Except UsageError (Expansion ι) :=
  if s.wantsValue then .ok (complete [.value s.id (attachedText? value)])
  else .error (.valueUnwanted s.label value)

/-- An option given by letter with a text attached. The text is the value if one is wanted, and
else it consists of further letters; the last of them may be without a text. -/
def lettered (switches : List (Switch ι)) (s : Switch ι) :
    (attached : Text) → Except UsageError (Expansion ι)
  | [] => withValue s []
  | letter :: attached =>
    if s.wantsValue then withValue s (letter :: attached)
    else
      match switches.find? (fun s => s.letter? == some letter) with
      | none => withValue s (letter :: attached)
      | some next =>
        match if attached = [] then .ok (bare next) else lettered switches next attached with
        | .error error => .error error
        | .ok later => .ok { later with events := .flag s.id :: later.events }

/-- What a use of options asks for. One equals sign may stand between a letter and its text. -/
def ofUse (switches : List (Switch ι)) : Use ι → Except UsageError (Expansion ι)
  | .named s none => .ok (bare s)
  | .named s (some value) => withValue s value
  | .lettered s [] => .ok (bare s)
  | .lettered s ('=' :: attached) => lettered switches s attached
  | .lettered s attached => lettered switches s attached

end Expansion

/-- The room for an operand: not filled yet, filled by the word just read, or not available. -/
inductive Room where
  | free
  | justFilled
  | closed
  deriving DecidableEq, Repr

def Room.settled : Room → Room
  | .free => .free
  | _ => .closed

/-- The words of a command line: those before the first `--`, and those after it if there is one. -/
def cutAtDashes (words : List Text) : List Text × Option (List Text) :=
  match words.dropWhile (· != ['-', '-']) with
  | [] => (words, none)
  | _ :: after => (words.takeWhile (· != ['-', '-']), some after)

def readAfterDashes (room : Room) (after? : Option (List Text)) : Reading ι :=
  match after? with
  | none => ⟨[], none⟩
  | some after =>
    match room, after with
    | .free, [] => ⟨[], none⟩
    | .free, word :: words => ⟨.operand word :: words.map .leftover, none⟩
    | .justFilled, words => ⟨words.map .leftover, none⟩
    | .closed, words => ⟨.leftover ['-', '-'] :: words.map .leftover, none⟩

/-- The words before `--`, each with its class, and then those from `--` on. -/
def readWords (switches : List (Switch ι)) (after? : Option (List Text)) :
    Room → List (Text × Word ι) → Reading ι
  | room, [] => readAfterDashes room after?
  | .free, (word, .plain) :: words =>
    (readWords switches after? .justFilled words).push (.operand word)
  | _, (word, .plain) :: words =>
    (readWords switches after? .closed words).push (.leftover word)
  | room, (word, .unknown) :: words =>
    (readWords switches after? room.settled words).push (.leftover word)
  | room, (_, .option use) :: words =>
    match Expansion.ofUse switches use with
    | .error error => .failed error
    | .ok ⟨events, none⟩ => (readWords switches after? room.settled words).prepend events
    | .ok ⟨events, some s⟩ =>
      match words with
      | (value, .plain) :: words =>
        let event := .value s.id (some value)
        (readWords switches after? room.settled words).prepend (events ++ [event])
      | _ => .failed (.valueMissing s.label)

/-- A command's reading of its words; `room` says whether it takes an operand. -/
def read (switches : List (Switch ι)) (room : Room) (words : List Text) : Reading ι :=
  let (before, after?) := cutAtDashes words
  match before.mapM (fun word => (Word.classify switches word).map (word, ·)) with
  | .error error => .failed error
  | .ok classified => readWords switches after? room classified

end CommandLine
end MonkeyLexis
