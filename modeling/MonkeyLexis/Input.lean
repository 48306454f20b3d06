import MonkeyLexis.Text.Lines
import MonkeyLexis.Text.Utf8

/-!
# Input

An input is a text that is read line by line, and possibly a fault behind it that
stops a reader who asks for more. A line that the fault cuts off is never
delivered.

Bytes become an input in blocks. Each block is decoded as soon as it is read, as
far as the bytes so far decide, and its line ends are unified. Two things are kept
until the next block: an unfinished character, and a final carriage return, since
a line feed may follow it. A malformed block delivers nothing.

A file delivers full blocks; a pipe or a terminal may deliver less at a time. Where
blocks end matters to malformed bytes only, for the text that is delivered before the
fault and for the place that the fault names.
-/

namespace MonkeyLexis

/-- A text to be read, and what stops reading behind it. -/
structure Input where
  text : Text
  fault? : Option Utf8.Malformed
  deriving DecidableEq, Repr

namespace Input

def ofText (text : Text) : Input := ⟨text, none⟩

inductive Line where
  | content (line rest : Text)
  | ended
  | failed (fault : Utf8.Malformed)
  deriving DecidableEq, Repr

/-- The content of the next line, and the text behind the line. -/
def nextLine (input : Input) : Line :=
  match input.fault? with
  | some fault =>
    if input.text.contains '\n' then
      .content (Text.lineContent (Text.firstLine input.text)) (Text.afterLine input.text)
    else .failed fault
  | none =>
    if input.text = [] then .ended
    else .content (Text.lineContent (Text.firstLine input.text)) (Text.afterLine input.text)

theorem length_rest_lt {input : Input} {line rest : Text}
    (h : input.nextLine = .content line rest) : rest.length < input.text.length := by
  unfold nextLine at h
  split at h
  · split at h
    · next hc =>
      cases h
      refine Text.length_afterLine_lt fun hn => ?_
      simp [hn] at hc
    · cases h
  · split at h
    · cases h
    · next hn =>
      cases h
      exact Text.length_afterLine_lt hn

/-- The bytes cut into blocks of at most `size + 1`. -/
def blocks (size : Nat) : Bytes → List Bytes
  | [] => []
  | b :: bytes => (b :: bytes).take (size + 1) :: blocks size ((b :: bytes).drop (size + 1))
termination_by bytes => bytes.length
decreasing_by
  rw [List.length_drop, List.length_cons]
  omega

/-- The text before a carriage return at the end, and whether there is one. -/
def withhold (t : Text) : Text × Bool :=
  if t.getLast? = some '\r' then (t.dropLast, true) else (t, false)

/-- The input that blocks make when `kept` bytes and perhaps a carriage return are held back from
the blocks before. -/
def ofBlocks (kept : Bytes) (returnKept : Bool) : List Bytes → Input
  | [] =>
    match Utf8.malformedAt? 0 kept with
    | some fault => ⟨[], some fault⟩
    | none => ⟨if returnKept then ['\n'] else [], none⟩
  | block :: later =>
    match Utf8.decodeAvailable (kept ++ block) with
    | .error fault => ⟨[], some fault⟩
    | .ok (decoded, kept) =>
      let (text, returnKept) := withhold (if returnKept then '\r' :: decoded else decoded)
      let input := ofBlocks kept returnKept later
      { input with text := Text.unifyLineEnds text ++ input.text }

/-- A stream of bytes that delivers full blocks of 8192. -/
def ofBytes (bytes : Bytes) : Input := ofBlocks [] false (blocks 8191 bytes)

end Input
end MonkeyLexis
