import MonkeyLexis.Proofs.IndexedCursor
import MonkeyLexis.Proofs.SharedStreams

/-!
# Cursors stay in range

A cursor by index does the same as one that divides its text into what is behind and
what is ahead: started together and asked the same, they give the same answers and
stand at the same places. So no read is ever out of range, the two positions stay one
apart, and the current character is the one at the position. All movement is forward.
-/

namespace MonkeyLexis

open Alphabet

namespace Cursor

variable {c : Cursor} {p : Char → Bool} {first : Char} {rest : Text}

/-- The cursor with its place told by positions. -/
def indexed (c : Cursor) : IndexedCursor := ⟨c.source, c.position, c.followingPosition, c.current?⟩

theorem source_getElem? (c : Cursor) (n : Nat) : c.source[c.position + n]? = c.ahead[n]? := by
  rw [source, position, List.getElem?_append_right (by simp)]
  simp

theorem length_source (c : Cursor) : c.source.length = c.position + c.ahead.length := by
  simp [source, position]

theorem advance_of_nil (h : c.ahead = []) : c.advance = c := by
  obtain ⟨behind, ahead⟩ := c
  subst h
  rfl

theorem advance_of_cons (h : c.ahead = first :: rest) : c.advance = ⟨first :: c.behind, rest⟩ := by
  simp [advance, pass, h]

theorem read_indexed (c : Cursor) : c.indexed.read = .ok c.advance.indexed := by
  have hlen := c.length_source
  cases h : c.ahead with
  | nil =>
    rw [advance_of_nil h]
    exact if_pos ⟨by simp [indexed, current?, h], Nat.succ_pos _⟩
  | cons first rest =>
    have hsource : c.advance.source = c.source := source_pass 1 c
    have hchar := c.source_getElem? 1
    rw [IndexedCursor.read, if_neg (by simp [indexed, current?, h]), indexed, indexed, hsource,
      advance_of_cons h]
    simp only [h, List.length_cons] at hlen
    cases rest with
    | nil => 
      rw [if_pos (by simp [followingPosition, hlen])]
      rfl
    | cons second rest =>
      rw [if_neg (by simp [followingPosition, hlen])]
      simp only [h, List.getElem?_cons_succ, List.getElem?_cons_zero] at hchar
      rw [IndexedCursor.charAt, followingPosition, hchar]
      rfl

theorem start_indexed (source : Text) :
    IndexedCursor.start source = .ok (Cursor.start source).indexed := by
  cases source <;> rfl

theorem peek_indexed (c : Cursor) : c.indexed.peek = .ok c.following? := by
  have hlen := c.length_source
  have hchar := c.source_getElem? 1
  unfold IndexedCursor.peek IndexedCursor.charAt
  simp only [indexed, followingPosition, following?, hchar, hlen]
  cases h : c.ahead with
  | nil => exact if_pos (by simp)
  | cons first rest =>
    cases rest with
    | nil => exact if_pos (by simp)
    | cons second rest => exact if_neg (by simp)

theorem passRun_of_nil (h : c.run p = []) : c.passRun p = c := by
  rw [passRun, h]
  rfl

theorem passRun_of_cons (h : c.ahead = first :: rest) (hp : p first) :
    c.passRun p = c.advance.passRun p := by
  simp only [passRun, run, advance, pass_pass, ahead_pass, h, List.takeWhile_cons_of_pos hp,
    List.length_cons, List.drop_succ_cons, List.drop_zero, Nat.add_comm]

/-- Reading on passes the same run. The induction is on the text ahead, which every read shortens. -/
theorem passRun_indexed (p : Char → Bool) (c : Cursor) :
    c.indexed.passRun p = .ok (c.passRun p).indexed := by
  obtain ⟨behind, ahead⟩ := c
  induction ahead generalizing behind with
  | nil => exact IndexedCursor.passRun_of_none rfl
  | cons first rest ih =>
    by_cases hp : p first
    · rw [IndexedCursor.passRun_of_pos rfl hp, read_indexed, passRun_of_cons rfl hp,
        advance_of_cons rfl]
      exact ih (first :: behind)
    · have hrun : (Cursor.mk behind (first :: rest)).run p = [] := List.takeWhile_cons_of_neg hp
      rw [IndexedCursor.passRun_of_neg rfl hp, passRun_of_nil hrun]

theorem source_piece (n : Nat) (c : Cursor) :
    (c.source.take (c.position + n)).drop c.position = c.ahead.take n := by
  rw [List.drop_take, Nat.add_sub_cancel_left, source, position, List.drop_left' (by simp)]

theorem takeRun_indexed (p : Char → Bool) (c : Cursor) :
    c.indexed.takeRun p = .ok (c.run p, (c.passRun p).indexed) := by
  have hrun : c.ahead.take (c.run p).length = c.run p :=
    (List.prefix_iff_eq_take.mp (List.takeWhile_prefix p)).symm
  have hpiece : (c.source.take (c.passRun p).position).drop c.position = c.run p := by
    rw [passRun, position_pass, source_piece, ← List.take_eq_take_min, hrun]
  rw [IndexedCursor.takeRun, passRun_indexed, Except.map]
  exact congrArg (fun t => Except.ok (t, (c.passRun p).indexed)) hpiece

theorem takeRun_indexed_of_cons (h : c.ahead = first :: rest) (hp : p first) :
    c.indexed.takeRun p =
      .ok (first :: rest.takeWhile p, (c.pass (first :: rest.takeWhile p).length).indexed) := by
  have hrun : c.run p = first :: rest.takeWhile p := by
    rw [run, h, List.takeWhile_cons_of_pos hp]
  rw [takeRun_indexed, passRun, hrun]

theorem read_pass_indexed (n : Nat) (c : Cursor) :
    (c.pass n).indexed.read = .ok (c.pass (n + 1)).indexed := by
  rw [read_indexed, advance, pass_pass]

theorem leading?_of_pair {o : Operator} {text : Text}
    (h : IndexedCursor.pair? first rest.head? = some (o, text)) :
    Operator.leading? (first :: rest) = some o ∧ o.spelling = text ∧ text.length = 2 := by
  cases rest with
  | nil => cases h
  | cons second rest =>
    obtain ⟨q, hq, hpair⟩ := Option.map_eq_some_iff.mp h
    cases hpair
    refine ⟨?_, (Operator.ofSpelling?_eq_some_iff.mp hq).symm, rfl⟩
    simp [Operator.leading?, hq]

theorem leading?_of_no_pair (h : IndexedCursor.pair? first rest.head? = none) :
    Operator.leading? (first :: rest) = Operator.ofSpelling? [first] := by
  cases rest with
  | nil => simp [Operator.leading?]
  | cons second rest =>
    have hnone : Operator.ofSpelling? [first, second] = none := Option.map_eq_none_iff.mp h
    simp [Operator.leading?, hnone]

theorem nextOperator_indexed (h : c.ahead = first :: rest) (hl : ¬ isLetter first)
    (hd : ¬ isDigit first) :
    c.indexed.nextOperator first = .ok (Token.leading first rest,
      (c.pass (Token.leading first rest).literal.length).indexed) := by
  have hsecond : c.following? = rest.head? := by rw [following?, h, List.tail_cons]
  have hread : c.indexed.read = .ok (c.pass 1).indexed := read_indexed c
  rw [IndexedCursor.nextOperator, peek_indexed, hsecond,
    Token.leading_of_class (by simpa using hl) (by simpa using hd)]
  simp only [bind, Except.bind, hread, read_pass_indexed, pure, Except.pure]
  cases hpair : IndexedCursor.pair? first rest.head? with
  | some pair =>
    obtain ⟨hlead, hspelling, hlength⟩ := leading?_of_pair hpair
    simp [hlead, hspelling, hlength]
  | none =>
    rw [leading?_of_no_pair hpair]
    cases ho : Operator.ofSpelling? [first] with
    | none => rfl
    | some o => simp [← Operator.ofSpelling?_eq_some_iff.mp ho]

theorem next_indexed (c : Cursor) : c.indexed.next = .ok (c.next.1, c.next.2.indexed) := by
  have hpass : c.indexed.passRun isBlank = .ok c.skipBlanks.indexed := passRun_indexed isBlank c
  have hcurrent : c.skipBlanks.indexed.current? = (Text.skipBlanks c.ahead).head? := by
    rw [indexed, current?, ahead_skipBlanks]
  rw [IndexedCursor.next, hpass]
  cases h : Text.skipBlanks c.ahead with
  | nil =>
    rw [next_of_nil h]
    simp only [bind, Except.bind, hcurrent, h, List.head?_nil]
    rfl
  | cons first rest =>
    have hahead : c.skipBlanks.ahead = first :: rest := by rw [ahead_skipBlanks, h]
    rw [next_of_cons h]
    simp only [bind, Except.bind, hcurrent, h, List.head?_cons]
    split
    · next hl =>
      have hw : isWordChar first := by simp [isWordChar, hl]
      rw [takeRun_indexed_of_cons hahead hw, Token.leading_of_isLetter hl]
      rfl
    · next hl =>
      split
      · next hd =>
        rw [takeRun_indexed_of_cons hahead hd, Token.leading_of_isDigit hd]
        rfl
      · next hd => exact nextOperator_indexed hahead hl hd

theorem next_eq_of_end (h : c.next.1.kind = .endOfInput) : c.next.1 = Token.endOfInput := by
  rcases c.next_cases with ⟨_, hend, _⟩ | ⟨hkind, _⟩
  · exact hend
  · exact absurd h hkind

theorem collect_indexed (atEnd : Token → List Token) (c : Cursor) :
    c.indexed.collect atEnd = .ok (c.drain.1 ++ atEnd Token.endOfInput, c.drain.2.indexed) := by
  fun_induction drain c with
  | case1 c h =>
    rw [IndexedCursor.collect_of_next atEnd (next_indexed c), if_pos h, next_eq_of_end h]
    rfl
  | case2 c h tokens last hd ih =>
    rw [IndexedCursor.collect_of_next atEnd (next_indexed c), if_neg h, ih, hd]
    rfl

theorem drain_indexed (c : Cursor) : c.indexed.drain = .ok (c.drain.1, c.drain.2.indexed) := by
  rw [IndexedCursor.drain, collect_indexed, List.append_nil]

theorem scan_indexed (c : Cursor) : c.indexed.scan = .ok (c.scan.1, c.scan.2.indexed) :=
  collect_indexed _ c

theorem exists_pass_next (c : Cursor) : ∃ n, c.next.2 = c.pass n := by
  cases h : Text.skipBlanks c.ahead with
  | nil =>
    rw [next_of_nil h]
    exact ⟨_, rfl⟩
  | cons first rest =>
    rw [next_of_cons h, skipBlanks, passRun, pass_pass]
    exact ⟨_, rfl⟩

theorem exists_pass_drain (c : Cursor) : ∃ n, c.drain.2 = c.pass n := by
  fun_induction drain c with
  | case1 c h => exact c.exists_pass_next
  | case2 c h tokens last hd ih =>
    obtain ⟨m, hm⟩ := c.exists_pass_next
    obtain ⟨n, hn⟩ := ih
    rw [hd, hm, pass_pass] at hn
    exact ⟨m + n, hn⟩

end Cursor

namespace SharedCursor

variable {s : SharedCursor} {request : Request}

/-- Whatever is asked, the cursor passes some characters of the text ahead. -/
theorem exists_pass_serve (s : SharedCursor) (request : Request) :
    ∃ n, (s.serve request).2.cursor = s.cursor.pass n := by
  cases request with
  | next => exact s.cursor.exists_pass_next
  | scan => exact s.cursor.exists_pass_drain
  | drain => exact s.cursor.exists_pass_drain
  | pull stream =>
    change ∃ n, (s.pull stream).2.cursor = s.cursor.pass n
    rcases s.pull_cases stream with ⟨_, hpull⟩ | ⟨_, _, _, hpull⟩ | ⟨_, _, _, hpull⟩
    · rw [hpull]
      exact ⟨0, rfl⟩
    · rw [hpull]
      exact s.cursor.exists_pass_next
    · rw [hpull]
      exact s.cursor.exists_pass_next
  | openStream => exact ⟨0, rfl⟩
  | peek => exact ⟨0, rfl⟩
  | advance => exact ⟨1, rfl⟩
  | skipBlanks => exact ⟨_, rfl⟩
  | takeWord => exact ⟨_, rfl⟩
  | takeDigits => exact ⟨_, rfl⟩

theorem source_after (s : SharedCursor) (requests : List Request) :
    (s.after requests).cursor.source = s.cursor.source := by
  induction requests generalizing s with
  | nil => rfl
  | cons request requests ih =>
    obtain ⟨n, hn⟩ := s.exists_pass_serve request
    rw [after_cons, ih, hn, Cursor.source_pass]

def indexed (s : SharedCursor) : SharedIndex := ⟨s.cursor.indexed, s.exhausted⟩

theorem pull_indexed (s : SharedCursor) (stream : Nat) :
    s.indexed.pull stream = .ok ((s.pull stream).1, (s.pull stream).2.indexed) := by
  unfold SharedIndex.pull pull
  cases h : s.exhausted[stream]? with
  | none => simp [indexed, h]
  | some exhausted =>
    cases exhausted with
    | true => simp [indexed, h]
    | false =>
      simp only [indexed, h, Cursor.next_indexed, bind, Except.bind]
      split <;> rfl

/-- One request. The answers are the same and the cursors stay together, without a fault. -/
theorem serve_indexed (s : SharedCursor) (request : Request) :
    s.indexed.serve request = .ok ((s.serve request).1, (s.serve request).2.indexed) := by
  cases request with
  | next => rw [SharedIndex.serve, indexed, Cursor.next_indexed]; rfl
  | scan => rw [SharedIndex.serve, indexed, Cursor.scan_indexed]; rfl
  | drain => rw [SharedIndex.serve, indexed, Cursor.drain_indexed]; rfl
  | openStream => rfl
  | pull stream => rw [SharedIndex.serve, pull_indexed]; rfl
  | peek => rw [SharedIndex.serve, indexed, Cursor.peek_indexed]; rfl
  | advance => rw [SharedIndex.serve, indexed, Cursor.read_indexed]; rfl
  | skipBlanks => rw [SharedIndex.serve, indexed, Cursor.passRun_indexed]; rfl
  | takeWord => rw [SharedIndex.serve, indexed, Cursor.takeRun_indexed]; rfl
  | takeDigits => rw [SharedIndex.serve, indexed, Cursor.takeRun_indexed]; rfl

theorem start_indexed (source : Text) :
    SharedIndex.start source = .ok (SharedCursor.start source).indexed := by
  rw [SharedIndex.start, Cursor.start_indexed]
  rfl

theorem after_indexed (s : SharedCursor) (requests : List Request) :
    s.indexed.after requests = .ok (s.after requests).indexed := by
  induction requests generalizing s with
  | nil => rfl
  | cons request requests ih =>
    rw [SharedIndex.after, serve_indexed]
    exact ih (s.serve request).2

end SharedCursor

/-- What holds of a cursor by index from its first read on. -/
structure IndexedCursor.Sound (source : Text) (c : IndexedCursor) : Prop where
  input_eq : c.input = source
  nextPosition_eq : c.nextPosition = c.position + 1
  position_le : c.position ≤ source.length
  current?_of_lt : ∀ h : c.position < source.length, c.current? = some source[c.position]
  current?_eq_none_iff : c.current? = none ↔ c.position = source.length

theorem Cursor.sound_indexed {source : Text} {c : Cursor} (h : c.source = source) :
    c.indexed.Sound source := by
  have hlen : source.length = c.position + c.ahead.length := by rw [← h, c.length_source]
  have hcurrent : c.current? = source[c.position]? := by
    rw [← h, current?, List.head?_eq_getElem?, ← c.source_getElem?, Nat.add_zero]
  refine ⟨h, rfl, ?_, ?_, ?_⟩
  · change c.position ≤ source.length
    omega
  · intro hlt
    exact hcurrent.trans (List.getElem?_eq_getElem hlt)
  · change c.current? = none ↔ c.position = source.length
    rw [hcurrent, List.getElem?_eq_none_iff]
    omega

/-- A cursor by index never reads out of range, whatever is asked of it. At every time its two
positions are one apart, the current character is the one at the position, and the position lies
within the text and never moves back. Peeking and opening a stream move nothing; an advance moves
by one character unless none is left. A cursor that divides the same text does all of it alike. -/
theorem reads_stay_in_range (source : Text) (before : List Request) :
    let shared := (SharedCursor.start source).after before
    ∃ s, (SharedIndex.start source >>= (·.after before)) = .ok s ∧ s.cursor.Sound source ∧
      s = shared.indexed ∧
      (∀ request, ∃ t, s.serve request = .ok ((shared.serve request).1, t) ∧
        t.cursor.Sound source ∧ t = (shared.serve request).2.indexed ∧
        s.cursor.position ≤ t.cursor.position) ∧
      (∃ char?, s.serve .peek = .ok (.character char?, s)) ∧
      (∃ i t, s.serve .openStream = .ok (.stream i, t) ∧ t.cursor = s.cursor) ∧
      ∃ t, s.serve .advance = .ok (.done, t) ∧ t.cursor.position =
        if s.cursor.position < source.length then s.cursor.position + 1 else s.cursor.position := by
  intro shared
  have hrun : (SharedIndex.start source >>= (·.after before)) = .ok shared.indexed := by
    rw [SharedCursor.start_indexed]
    exact SharedCursor.after_indexed _ before
  have hsource : shared.cursor.source = source := SharedCursor.source_after _ before
  refine ⟨shared.indexed, hrun, Cursor.sound_indexed hsource, rfl, ?_, ?_, ?_, ?_⟩
  · intro request
    obtain ⟨n, hn⟩ := shared.exists_pass_serve request
    refine ⟨_, shared.serve_indexed request, ?_, rfl, ?_⟩
    · exact Cursor.sound_indexed (by rw [hn, Cursor.source_pass, hsource])
    · change shared.cursor.position ≤ (shared.serve request).2.cursor.position
      rw [hn, Cursor.position_pass]
      exact Nat.le_add_right _ _
  · exact ⟨_, shared.serve_indexed .peek⟩
  · exact ⟨_, _, shared.serve_indexed .openStream, rfl⟩
  · refine ⟨_, shared.serve_indexed .advance, ?_⟩
    have hlen := shared.cursor.length_source
    rw [hsource] at hlen
    change shared.cursor.advance.position = if shared.cursor.position < source.length then
      shared.cursor.position + 1 else shared.cursor.position
    rw [Cursor.advance, Cursor.position_pass]
    split <;> omega

end MonkeyLexis
