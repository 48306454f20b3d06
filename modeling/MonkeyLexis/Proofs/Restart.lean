import Mathlib.Data.List.Forall2
import MonkeyLexis.Proofs.CursorRange

/-!
# Starting anew on the rest of a text

What a cursor does depends only on the text ahead of it. So a cursor that has been
moved about and a fresh one on the rest of the text serve further requests alike, as
long as nobody asks the streams that were opened before; positions differ by the
length of the text behind. Streams are told apart by the order of their opening, and
a request for a later stream is the same request with a greater number.
-/

namespace MonkeyLexis

open Alphabet

/-- The request with `opened` streams opened before the first one that it can name. -/
def Request.shift (opened : Nat) : Request → Request
  | .pull stream => .pull (opened + stream)
  | request => request

def Answer.shift (opened : Nat) : Answer → Answer
  | .stream index => .stream (opened + index)
  | answer => answer

namespace Cursor

/-- The cursor in a text that has `earlier` before it, the nearest character first. -/
def behindOf (earlier : Text) (c : Cursor) : Cursor := ⟨c.behind ++ earlier, c.ahead⟩

variable {earlier : Text}

@[simp] theorem pass_behindOf (n : Nat) (c : Cursor) :
    (c.behindOf earlier).pass n = (c.pass n).behindOf earlier := by
  simp [behindOf, pass]

@[simp] theorem passRun_behindOf (p : Char → Bool) (c : Cursor) :
    (c.behindOf earlier).passRun p = (c.passRun p).behindOf earlier :=
  pass_behindOf _ c

@[simp] theorem run_behindOf (p : Char → Bool) (c : Cursor) :
    (c.behindOf earlier).run p = c.run p := rfl

theorem position_behindOf (c : Cursor) :
    (c.behindOf earlier).position = earlier.length + c.position := by
  simp [behindOf, position, Nat.add_comm]

theorem next_behindOf (c : Cursor) :
    (c.behindOf earlier).next = (c.next.1, c.next.2.behindOf earlier) := by
  have hskip : (c.behindOf earlier).skipBlanks = c.skipBlanks.behindOf earlier :=
    passRun_behindOf isBlank c
  cases h : Text.skipBlanks c.ahead with
  | nil =>
    have hbehind : (c.behindOf earlier).next = (Token.endOfInput, _) := next_of_nil h
    rw [hbehind, next_of_nil h, hskip]
  | cons first rest =>
    have hbehind : (c.behindOf earlier).next = (Token.leading first rest, _) := next_of_cons h
    rw [hbehind, next_of_cons h, hskip, pass_behindOf]

theorem drain_behindOf (c : Cursor) :
    (c.behindOf earlier).drain = (c.drain.1, c.drain.2.behindOf earlier) := by
  fun_induction drain c with
  | case1 c h =>
    rw [drain, next_behindOf]
    exact dif_pos h
  | case2 c h tokens last hd ih =>
    rw [drain, next_behindOf, dif_neg h, ih, hd]

theorem ahead_eq_drop (c : Cursor) : c.ahead = c.source.drop c.position := by
  rw [source, position, List.drop_left' (by simp)]

end Cursor

namespace SharedCursor

variable {earlier : Text} {old : List Bool}

/-- The cursor in a text that has `earlier` before it, with the streams `old` opened first. -/
def behindOf (earlier : Text) (old : List Bool) (s : SharedCursor) : SharedCursor :=
  ⟨s.cursor.behindOf earlier, old ++ s.exhausted⟩

theorem pull_behindOf (s : SharedCursor) (stream : Nat) :
    (s.behindOf earlier old).pull (old.length + stream) =
      ((s.pull stream).1, (s.pull stream).2.behindOf earlier old) := by
  have hstream : (old ++ s.exhausted)[old.length + stream]? = s.exhausted[stream]? := by
    rw [List.getElem?_append_right (Nat.le_add_right _ _), Nat.add_sub_cancel_left]
  have hset : (old ++ s.exhausted).set (old.length + stream) true =
      old ++ s.exhausted.set stream true := by
    rw [List.set_append_right _ _ (Nat.le_add_right _ _), Nat.add_sub_cancel_left]
  unfold pull
  simp only [behindOf, hstream, Cursor.next_behindOf]
  split
  · split
    · rw [hset]
    · rfl
  · rfl

/-- One request. The answer tells of later streams and the cursor stands farther on. -/
theorem serve_behindOf (s : SharedCursor) (request : Request) :
    (s.behindOf earlier old).serve (request.shift old.length) =
      ((s.serve request).1.shift old.length, (s.serve request).2.behindOf earlier old) := by
  cases request with
  | next => simp [Request.shift, serve, behindOf, Cursor.next_behindOf, Answer.shift]
  | scan => simp [Request.shift, serve, behindOf, Cursor.scan, Cursor.drain_behindOf, Answer.shift]
  | drain => simp [Request.shift, serve, behindOf, Cursor.drain_behindOf, Answer.shift]
  | openStream => simp [Request.shift, serve, behindOf, Answer.shift]
  | pull stream => simp [Request.shift, serve, pull_behindOf, Answer.shift]
  | peek => rfl
  | advance => simp [Request.shift, serve, behindOf, Cursor.advance, Answer.shift]
  | skipBlanks => simp [Request.shift, serve, behindOf, Cursor.skipBlanks, Answer.shift]
  | takeWord => simp [Request.shift, serve, take, behindOf, Answer.shift]
  | takeDigits => simp [Request.shift, serve, take, behindOf, Answer.shift]

theorem history_behindOf (s : SharedCursor) (requests : List Request) :
    (s.behindOf earlier old).history (requests.map (Request.shift old.length)) =
      (s.history requests).map fun (answer, t) =>
        (answer.shift old.length, t.behindOf earlier old) := by
  induction requests generalizing s with
  | nil => rfl
  | cons request requests ih =>
    simp only [List.map_cons, history, serve_behindOf, ih]

end SharedCursor

/-- A cursor that has served any requests serves further ones as a fresh cursor on the rest of the
text does, if they pull only streams that they open: answer for answer, with the same characters,
and at places that differ by the position of the restart. -/
theorem history_eq_of_restart (source : Text) (before requests : List Request) :
    let s := (SharedCursor.start source).after before
    let p := s.cursor.position
    let opened := s.exhausted.length
    let fresh := SharedCursor.start (source.drop p)
    List.Forall₂
        (fun old new => old.1 = new.1.shift opened ∧
          old.2.cursor.current? = new.2.cursor.current? ∧
          old.2.cursor.position = p + new.2.cursor.position ∧
          old.2.cursor.followingPosition = p + new.2.cursor.followingPosition)
        (s.history (requests.map (Request.shift opened))) (fresh.history requests) ∧
      s.cursor.current? = fresh.cursor.current? ∧
      (s.serve .scan).1 = .tokens (tokens (source.drop p)) := by
  intro s p opened fresh
  have hsource : s.cursor.source = source := SharedCursor.source_after _ before
  have hahead : s.cursor.ahead = source.drop p := by rw [s.cursor.ahead_eq_drop, hsource]
  have hs : fresh.behindOf s.cursor.behind s.exhausted = s := by
    rw [SharedCursor.behindOf, show fresh.cursor = Cursor.start s.cursor.ahead by rw [hahead]; rfl,
      show fresh.exhausted = [] from rfl, List.append_nil]
    rfl
  have hhistory : (fresh.behindOf s.cursor.behind s.exhausted).history
      (requests.map (Request.shift opened)) = _ := fresh.history_behindOf requests
  rw [hs] at hhistory
  refine ⟨?_, congrArg List.head? hahead, ?_⟩
  · rw [hhistory, List.forall₂_map_left_iff, List.forall₂_same]
    rintro ⟨answer, t⟩ _
    have hposition : (t.behindOf s.cursor.behind s.exhausted).cursor.position =
        p + t.cursor.position := t.cursor.position_behindOf
    exact ⟨rfl, rfl, hposition, congrArg (· + 1) hposition⟩
  · rw [← hahead]
    exact congrArg Answer.tokens s.cursor.scan_tokens

end MonkeyLexis
