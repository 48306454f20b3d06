import MonkeyLexis.Scan.Tokens

/-!
# Cursors

A cursor divides a source text into what has been passed and what lies ahead, so
its position is always within the source. All movement is forward: a cursor
passes some characters of the text ahead. Taking tokens one by one until the end
yields the tokens of the text ahead.
-/

namespace MonkeyLexis

open Alphabet

/-- A place in a text: the characters behind it, the nearest first, and those ahead. -/
structure Cursor where
  behind : Text
  ahead : Text
  deriving DecidableEq, Repr

namespace Cursor

def start (source : Text) : Cursor := ⟨[], source⟩

def source (c : Cursor) : Text := c.behind.reverse ++ c.ahead

def position (c : Cursor) : Nat := c.behind.length

def followingPosition (c : Cursor) : Nat := c.position + 1

/-- The character at the position, unless the text is used up. -/
def current? (c : Cursor) : Option Char := c.ahead.head?

def following? (c : Cursor) : Option Char := c.ahead.tail.head?

/-- The cursor after `n` more characters, or at the end if fewer are left. -/
def pass (n : Nat) (c : Cursor) : Cursor :=
  ⟨(c.ahead.take n).reverse ++ c.behind, c.ahead.drop n⟩

@[simp] theorem ahead_pass (n : Nat) (c : Cursor) : (c.pass n).ahead = c.ahead.drop n := rfl

@[simp] theorem source_pass (n : Nat) (c : Cursor) : (c.pass n).source = c.source := by
  simp [source, pass]

theorem position_pass (n : Nat) (c : Cursor) :
    (c.pass n).position = c.position + min n c.ahead.length := by
  simp [position, pass, Nat.add_comm]

theorem pass_pass (m n : Nat) (c : Cursor) : (c.pass m).pass n = c.pass (m + n) := by
  simp [pass, List.take_add, List.drop_drop]

def advance (c : Cursor) : Cursor := c.pass 1

/-- The longest run of `p`-characters ahead. -/
def run (p : Char → Bool) (c : Cursor) : Text := c.ahead.takeWhile p

def passRun (p : Char → Bool) (c : Cursor) : Cursor := c.pass (c.run p).length

def skipBlanks (c : Cursor) : Cursor := c.passRun isBlank

@[simp] theorem ahead_passRun (p : Char → Bool) (c : Cursor) :
    (c.passRun p).ahead = c.ahead.dropWhile p := by
  have h : (c.ahead.takeWhile p ++ c.ahead.dropWhile p).drop (c.run p).length =
      c.ahead.dropWhile p := List.drop_left
  rwa [List.takeWhile_append_dropWhile] at h

@[simp] theorem ahead_skipBlanks (c : Cursor) : c.skipBlanks.ahead = Text.skipBlanks c.ahead :=
  ahead_passRun isBlank c

/-- The token after the blanks ahead, and the cursor behind it. -/
def next (c : Cursor) : Token × Cursor :=
  match c.skipBlanks.ahead with
  | [] => (Token.endOfInput, c.skipBlanks)
  | first :: rest =>
    let token := Token.leading first rest
    (token, c.skipBlanks.pass token.literal.length)

theorem next_of_nil {c : Cursor} (h : Text.skipBlanks c.ahead = []) :
    c.next = (Token.endOfInput, c.skipBlanks) := by
  simp [next, h]

theorem next_of_cons {c : Cursor} {first : Char} {rest : Text}
    (h : Text.skipBlanks c.ahead = first :: rest) :
    c.next = (Token.leading first rest,
      c.skipBlanks.pass (Token.leading first rest).literal.length) := by
  simp [next, h]

theorem length_ahead_next_lt {c : Cursor} (h : c.next.1.kind ≠ .endOfInput) :
    c.next.2.ahead.length < c.ahead.length := by
  cases hs : Text.skipBlanks c.ahead with
  | nil => simp [next_of_nil hs, Token.endOfInput] at h
  | cons first rest =>
    have hle := Text.length_skipBlanks_le c.ahead
    have hpos := List.length_pos_iff.mpr (Token.literal_leading_ne_nil first rest)
    rw [next_of_cons hs]
    simp only [ahead_pass, ahead_skipBlanks, hs, List.length_drop, List.length_cons] at *
    omega

/-- The tokens taken one by one up to the end, and the cursor there. -/
def drain (c : Cursor) : List Token × Cursor :=
  if _h : c.next.1.kind = .endOfInput then ([], c.next.2)
  else
    let (tokens, last) := drain c.next.2
    (c.next.1 :: tokens, last)
termination_by c.ahead.length
decreasing_by exact length_ahead_next_lt _h

theorem drain_of_nil {c : Cursor} (h : Text.skipBlanks c.ahead = []) :
    c.drain = ([], c.skipBlanks) := by
  rw [drain]
  simp [next_of_nil h, Token.endOfInput]

theorem drain_tokens (c : Cursor) : c.drain.1 = lexemes c.ahead := by
  fun_induction drain c with
  | case1 c h =>
    cases hs : Text.skipBlanks c.ahead with
    | nil => rw [lexemes_of_skipBlanks_eq_nil hs]
    | cons first rest =>
      rw [next_of_cons hs] at h
      exact absurd h (Token.kind_leading_ne_endOfInput first rest)
  | case2 c h tokens last hd ih =>
    cases hs : Text.skipBlanks c.ahead with
    | nil => simp [next_of_nil hs, Token.endOfInput] at h
    | cons first rest =>
      rw [hd] at ih
      rw [lexemes_of_skipBlanks_eq_cons hs]
      simp only [next_of_cons hs, ahead_pass, ahead_skipBlanks, hs] at ih ⊢
      rw [ih]

def scan (c : Cursor) : List Token × Cursor :=
  let (tokens, last) := c.drain
  (tokens ++ [Token.endOfInput], last)

theorem scan_tokens (c : Cursor) : c.scan.1 = tokens c.ahead := by
  simp [scan, drain_tokens, tokens]

end Cursor
end MonkeyLexis
