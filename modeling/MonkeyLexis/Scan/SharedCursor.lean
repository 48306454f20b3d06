import MonkeyLexis.Scan.Cursor

/-!
# A cursor with several users

Requests of many kinds act on one cursor, in any order. Among its users are token
streams. A stream keeps no token back: opening one takes nothing from the source,
and a pull takes at most one token. A stream that has met the end stays exhausted.
-/

namespace MonkeyLexis

open Alphabet

inductive Request where
  | next
  | scan
  | drain
  | openStream
  | pull (stream : Nat)
  | peek
  | advance
  | skipBlanks
  | takeWord
  | takeDigits
  deriving DecidableEq, Repr

inductive Answer where
  | token (t : Token)
  | tokens (ts : List Token)
  | stream (index : Nat)
  | pulled (t : Option Token)
  | character (c : Option Char)
  | text (t : Text)
  | done
  deriving DecidableEq, Repr

/-- The cursor and, in the order of their opening, whether its streams are exhausted. -/
structure SharedCursor where
  cursor : Cursor
  exhausted : List Bool
  deriving DecidableEq, Repr

namespace SharedCursor

def start (source : Text) : SharedCursor := ⟨.start source, []⟩

/-- The next token for a stream. An exhausted stream, like one that was never opened, leaves the
cursor alone. -/
def pull (s : SharedCursor) (stream : Nat) : Option Token × SharedCursor :=
  match s.exhausted[stream]? with
  | some false =>
    let (token, cursor) := s.cursor.next
    if token.kind = .endOfInput then (none, ⟨cursor, s.exhausted.set stream true⟩)
    else (some token, ⟨cursor, s.exhausted⟩)
  | _ => (none, s)

def take (p : Char → Bool) (s : SharedCursor) : Text × SharedCursor :=
  (s.cursor.run p, { s with cursor := s.cursor.passRun p })

def serve (s : SharedCursor) : Request → Answer × SharedCursor
  | .next =>
    let (token, cursor) := s.cursor.next
    (.token token, { s with cursor })
  | .scan =>
    let (tokens, cursor) := s.cursor.scan
    (.tokens tokens, { s with cursor })
  | .drain =>
    let (tokens, cursor) := s.cursor.drain
    (.tokens tokens, { s with cursor })
  | .openStream => (.stream s.exhausted.length, { s with exhausted := s.exhausted ++ [false] })
  | .pull stream =>
    let (token, s) := s.pull stream
    (.pulled token, s)
  | .peek => (.character s.cursor.following?, s)
  | .advance => (.done, { s with cursor := s.cursor.advance })
  | .skipBlanks => (.done, { s with cursor := s.cursor.skipBlanks })
  | .takeWord =>
    let (text, s) := s.take isWordChar
    (.text text, s)
  | .takeDigits =>
    let (text, s) := s.take isDigit
    (.text text, s)

/-- The answers to requests made one after another, each with the cursor after it. -/
def history (s : SharedCursor) : List Request → List (Answer × SharedCursor)
  | [] => []
  | request :: requests =>
    let (answer, s) := s.serve request
    (answer, s) :: s.history requests

def after (s : SharedCursor) (requests : List Request) : SharedCursor :=
  requests.foldl (fun s request => (s.serve request).2) s

@[simp] theorem after_nil (s : SharedCursor) : s.after [] = s := rfl

@[simp] theorem after_cons (s : SharedCursor) (request : Request) (requests : List Request) :
    s.after (request :: requests) = (s.serve request).2.after requests := rfl

end SharedCursor
end MonkeyLexis
