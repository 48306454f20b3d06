import MonkeyLexis.Text.Numeral

/-!
# UTF-8

`encode` writes the one well-formed sequence of each character. `split` reads
characters as long as well-formed sequences follow one another and stops at the
first one that is malformed. A lead byte says how many bytes follow it and in
which range the next one lies; the range leaves out overlong forms, surrogates
and code points above U+10FFFF.

A malformed sequence is reported with the bytes at fault: those of it that could
still have begun a character.
-/

namespace MonkeyLexis

abbrev Bytes := List UInt8

namespace Utf8

def encodeChar (c : Char) : Bytes :=
  let n := c.toNat
  if n < 0x80 then [.ofNat n]
  else if n < 0x800 then [.ofNat (0xC0 + n / 64), .ofNat (0x80 + n % 64)]
  else if n < 0x10000 then
    [.ofNat (0xE0 + n / 4096), .ofNat (0x80 + n / 64 % 64), .ofNat (0x80 + n % 64)]
  else
    [.ofNat (0xF0 + n / 262144), .ofNat (0x80 + n / 4096 % 64), .ofNat (0x80 + n / 64 % 64),
      .ofNat (0x80 + n % 64)]

def encode (t : Text) : Bytes := t.flatMap encodeChar

/-- Why bytes form no character. -/
inductive Reason where
  | invalidStart
  | invalidContinuation
  | unexpectedEnd
  deriving DecidableEq, Repr

def Reason.message : Reason → Text
  | .invalidStart => "invalid start byte"
  | .invalidContinuation => "invalid continuation byte"
  | .unexpectedEnd => "unexpected end of data"

/-- What a lead byte announces: its share of the code point, the range of the next byte and
the number of bytes to follow. -/
structure Lead where
  share : Nat
  low : Nat
  high : Nat
  following : Nat
  deriving DecidableEq, Repr

def lead? (b : Nat) : Option Lead :=
  if b < 0x80 then some ⟨b, 0x80, 0xBF, 0⟩
  else if b < 0xC2 then none
  else if b < 0xE0 then some ⟨b - 0xC0, 0x80, 0xBF, 1⟩
  else if b = 0xE0 then some ⟨0, 0xA0, 0xBF, 2⟩
  else if b = 0xED then some ⟨0xD, 0x80, 0x9F, 2⟩
  else if b < 0xF0 then some ⟨b - 0xE0, 0x80, 0xBF, 2⟩
  else if b = 0xF0 then some ⟨0, 0x90, 0xBF, 3⟩
  else if b < 0xF4 then some ⟨b - 0xF0, 0x80, 0xBF, 3⟩
  else if b = 0xF4 then some ⟨4, 0x80, 0x8F, 3⟩
  else none

/-- The first sequence of some bytes: a code point and the bytes after it, or a reason and the
number of bytes at fault. -/
inductive Sequence where
  | complete (code : Nat) (rest : Bytes)
  | malformed (reason : Reason) (span : Nat)
  deriving DecidableEq, Repr

/-- Reads `following` more bytes of a sequence of which `span` bytes gave `code`; the next one
lies between `low` and `high`. -/
def continued (low high code span : Nat) : (following : Nat) → Bytes → Sequence
  | 0, rest => .complete code rest
  | _ + 1, [] => .malformed .unexpectedEnd span
  | following + 1, b :: rest =>
    if low ≤ b.toNat ∧ b.toNat ≤ high then
      continued 0x80 0xBF (code * 64 + (b.toNat - 0x80)) (span + 1) following rest
    else .malformed .invalidContinuation span

def sequence (b : UInt8) (rest : Bytes) : Sequence :=
  match lead? b.toNat with
  | none => .malformed .invalidStart 1
  | some lead => continued lead.low lead.high lead.share 1 lead.following rest

theorem length_le_of_continued {low high code span following code' : Nat} {bytes rest : Bytes}
    (h : continued low high code span following bytes = .complete code' rest) :
    rest.length ≤ bytes.length := by
  induction following generalizing low high code span bytes with
  | zero => cases h; exact Nat.le_refl _
  | succ following ih =>
    cases bytes with
    | nil => cases h
    | cons b bytes =>
      rw [continued] at h
      split at h
      · exact Nat.le_succ_of_le (ih h)
      · cases h

theorem length_le_of_sequence {b : UInt8} {bytes rest : Bytes} {code : Nat}
    (h : sequence b bytes = .complete code rest) : rest.length ≤ bytes.length := by
  rw [sequence] at h
  split at h
  · cases h
  · exact length_le_of_continued h

/-- The characters up to the first malformed sequence, and the bytes from there on. -/
def split : Bytes → Text × Bytes
  | [] => ([], [])
  | b :: bytes =>
    match h : sequence b bytes with
    | .malformed _ _ => ([], b :: bytes)
    | .complete code rest =>
      have : rest.length ≤ bytes.length := length_le_of_sequence h
      ((.ofNat code :: (split rest).1), (split rest).2)
termination_by bytes => bytes.length

/-- A malformed sequence: where it stands, its bytes at fault, and why. -/
structure Malformed where
  position : Nat
  bytes : Bytes
  reason : Reason
  deriving DecidableEq, Repr

namespace Malformed

def shownByte (b : UInt8) : Text := "0x" ++ Numeral.hex 2 b.toNat

/-- A single byte is shown, several are only located. -/
def message (m : Malformed) : Text :=
  let place : Text :=
    match m.bytes with
    | [b] => "byte " ++ shownByte b ++ " in position " ++ Numeral.decimal m.position
    | bytes => "bytes in position " ++ Numeral.decimal m.position ++ "-" ++
        Numeral.decimal (m.position + bytes.length - 1)
  "'utf-8' codec can't decode " ++ place ++ ": " ++ m.reason.message

end Malformed

/-- The report on bytes that begin with a malformed sequence and stand at `position`. -/
def malformedAt? (position : Nat) : Bytes → Option Malformed
  | [] => none
  | b :: bytes =>
    match sequence b bytes with
    | .complete _ _ => none
    | .malformed reason span => some ⟨position, (b :: bytes).take span, reason⟩

/-- The text of well-formed bytes, or the first malformed sequence. -/
def decode (bytes : Bytes) : Except Malformed Text :=
  let (text, rest) := split bytes
  match malformedAt? (bytes.length - rest.length) rest with
  | none => .ok text
  | some malformed => .error malformed

/-- Further bytes may still decide about these. A surrogate's first two bytes are not given up
before a third one arrives. -/
def awaitsMore : Bytes → Bool
  | [] => true
  | b :: bytes =>
    match sequence b bytes with
    | .malformed .unexpectedEnd _ => true
    | _ => b == 0xED && (match bytes with
      | [second] => 0xA0 ≤ second && second ≤ 0xBF
      | _ => false)

/-- The text of the bytes read so far and the bytes to be kept until more arrive. -/
def decodeAvailable (bytes : Bytes) : Except Malformed (Text × Bytes) :=
  let (text, rest) := split bytes
  if awaitsMore rest then .ok (text, rest)
  else
    match malformedAt? (bytes.length - rest.length) rest with
    | none => .ok (text, rest)
    | some malformed => .error malformed

end Utf8
end MonkeyLexis
