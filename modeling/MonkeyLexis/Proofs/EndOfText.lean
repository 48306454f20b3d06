import MonkeyLexis.Proofs.Restart

/-!
# The end of a text

Once a cursor has passed the last character it stays where it is, and every answer
tells that nothing is left. Streams that were opened before find the end at their
next pull. The end token is given exactly where only blanks are left, so that no
other character, a null or a control character say, ends the text early.
-/

namespace MonkeyLexis

open Alphabet

namespace Cursor

variable {c : Cursor}

theorem current?_eq_none_iff : c.current? = none ↔ c.ahead = [] :=
  List.head?_eq_none_iff

theorem pass_of_nil (h : c.ahead = []) (n : Nat) : c.pass n = c := by
  obtain ⟨behind, ahead⟩ := c
  subst h
  simp [pass]

theorem next_at_end (h : c.ahead = []) : c.next = (Token.endOfInput, c) := by
  have hskip : Text.skipBlanks c.ahead = [] := by
    rw [h]
    rfl
  rw [next_of_nil hskip]
  exact congrArg _ (pass_of_nil h _)

theorem drain_at_end (h : c.ahead = []) : c.drain = ([], c) := by
  have hskip : Text.skipBlanks c.ahead = [] := by
    rw [h]
    rfl
  rw [drain_of_nil hskip]
  exact congrArg _ (pass_of_nil h _)

theorem kind_next_iff : c.next.1.kind = .endOfInput ↔ IsBlankText c.ahead := by
  rw [← lexemes_eq_nil_iff]
  rcases c.next_cases with ⟨hnil, hend, _⟩ | ⟨hkind, hcons⟩
  · exact iff_of_true (congrArg Token.kind hend) hnil
  · rw [hcons]
    exact iff_of_false hkind (List.cons_ne_nil _ _)

theorem ahead_next_of_end (h : c.next.1.kind = .endOfInput) : c.next.2.ahead = [] := by
  have hskip : Text.skipBlanks c.ahead = [] := List.dropWhile_eq_nil_iff.mpr (kind_next_iff.mp h)
  rw [next_of_nil hskip, ahead_skipBlanks, hskip]

theorem ahead_drain (c : Cursor) : c.drain.2.ahead = [] := by
  fun_induction drain c with
  | case1 c h => exact ahead_next_of_end h
  | case2 c h tokens last hd ih => rwa [hd] at ih

end Cursor

/-- What is answered where nothing is left, with `opened` streams opened so far. -/
def Request.answerAtEnd (opened : Nat) : Request → Answer
  | .next => .token Token.endOfInput
  | .scan => .tokens [Token.endOfInput]
  | .drain => .tokens []
  | .openStream => .stream opened
  | .pull _ => .pulled none
  | .peek => .character none
  | .advance | .skipBlanks => .done
  | .takeWord | .takeDigits => .text []

namespace SharedCursor

variable {s : SharedCursor}

theorem pull_at_end (h : s.cursor.ahead = []) (stream : Nat) :
    (s.pull stream).1 = none ∧ (s.pull stream).2.cursor = s.cursor := by
  have hnext := Cursor.next_at_end h
  rcases s.pull_cases stream with ⟨_, hpull⟩ | ⟨_, _, _, hpull⟩ | ⟨_, hkind, _, _⟩
  · simp [hpull]
  · simp [hpull, hnext]
  · rw [hnext] at hkind
    exact absurd rfl hkind

/-- One request. Nothing is given and nothing moves. -/
theorem serve_at_end (h : s.cursor.ahead = []) (request : Request) :
    (s.serve request).1 = request.answerAtEnd s.exhausted.length ∧
      (s.serve request).2.cursor = s.cursor := by
  cases request with
  | next => simp [serve, Cursor.next_at_end h, Request.answerAtEnd]
  | scan => simp [serve, Cursor.scan, Cursor.drain_at_end h, Request.answerAtEnd]
  | drain => simp [serve, Cursor.drain_at_end h, Request.answerAtEnd]
  | openStream => exact ⟨rfl, rfl⟩
  | pull stream =>
    obtain ⟨hnone, hcursor⟩ := pull_at_end h stream
    exact ⟨congrArg Answer.pulled hnone, hcursor⟩
  | peek => simp [serve, Cursor.following?, h, Request.answerAtEnd]
  | advance => exact ⟨rfl, Cursor.pass_of_nil h 1⟩
  | skipBlanks => exact ⟨rfl, Cursor.pass_of_nil h _⟩
  | takeWord =>
    have htext : s.cursor.run isWordChar = [] := by simp [Cursor.run, h]
    exact ⟨congrArg Answer.text htext, Cursor.pass_of_nil h _⟩
  | takeDigits =>
    have htext : s.cursor.run isDigit = [] := by simp [Cursor.run, h]
    exact ⟨congrArg Answer.text htext, Cursor.pass_of_nil h _⟩

theorem cursor_after_at_end (h : s.cursor.ahead = []) (requests : List Request) :
    (s.after requests).cursor = s.cursor := by
  induction requests generalizing s with
  | nil => rfl
  | cons request requests ih =>
    have hcursor := (serve_at_end h request).2
    rw [after_cons, ih (by rw [hcursor, h]), hcursor]

/-- A stream is exhausted only if the cursor has passed the last character. -/
def ExhaustedBehindAll (s : SharedCursor) : Prop := true ∈ s.exhausted → s.cursor.ahead = []

theorem exhaustedBehindAll_serve (hs : s.ExhaustedBehindAll) (request : Request) :
    (s.serve request).2.ExhaustedBehindAll := by
  by_cases hend : s.cursor.ahead = []
  · intro _
    rw [(serve_at_end hend request).2, hend]
  · have hnone : true ∉ s.exhausted := fun hmem => hend (hs hmem)
    -- with a character ahead no stream is exhausted yet; only a pull can exhaust one
    cases request with
    | openStream => exact fun hmem => absurd (List.mem_append.mp hmem) (by simp [hnone])
    | pull stream =>
      change (s.pull stream).2.ExhaustedBehindAll
      rcases s.pull_cases stream with ⟨_, hpull⟩ | ⟨_, hnil, _, hpull⟩ | ⟨_, _, _, hpull⟩
      · rwa [hpull]
      · intro _
        rw [hpull]
        exact Cursor.ahead_next_of_end (Cursor.kind_next_iff.mpr (lexemes_eq_nil_iff.mp hnil))
      · rw [hpull]
        exact fun hmem => absurd hmem hnone
    | _ => exact fun hmem => absurd hmem hnone

theorem exhaustedBehindAll_after (hs : s.ExhaustedBehindAll) (requests : List Request) :
    (s.after requests).ExhaustedBehindAll := by
  induction requests generalizing s with
  | nil => exact hs
  | cons request requests ih => exact ih (exhaustedBehindAll_serve hs request)

theorem ahead_of_meetsEnd (hs : s.ExhaustedBehindAll) {request : Request}
    (hopen : ∀ stream, request = .pull stream → stream < s.exhausted.length)
    (h : (s.serve request).1.MeetsEnd) : (s.serve request).2.cursor.ahead = [] := by
  cases request with
  | next => exact Cursor.ahead_next_of_end h
  | scan => exact s.cursor.ahead_drain
  | drain => exact s.cursor.ahead_drain
  | pull stream =>
    have hnone : (s.pull stream).1 = none := h
    have hexhausted := exhausted_of_pull (hopen stream rfl) hnone
    exact exhaustedBehindAll_serve hs (.pull stream) (List.mem_of_getElem? hexhausted)
  | _ => exact absurd h id

end SharedCursor

/-- Where nothing is left the cursor never moves again, and every request has the one answer that
says so. That is the case after every answer that meets the end: an end token, a scan, a drain, or
a stream with nothing to give. The next token is the end token exactly where only blanks are left. -/
theorem end_of_text_is_absorbing (source : Text) (before : List Request) :
    let s := (SharedCursor.start source).after before
    (s.cursor.current? = none →
      s.cursor.position = source.length ∧ s.cursor.followingPosition = source.length + 1 ∧
      ∀ later, (s.after later).cursor = s.cursor ∧
        ∀ request, ((s.after later).serve request).1 =
          request.answerAtEnd (s.after later).exhausted.length) ∧
    (∀ request, (∀ stream, request = .pull stream → stream < s.exhausted.length) →
      (s.serve request).1.MeetsEnd → (s.serve request).2.cursor.current? = none) ∧
    ((s.serve .next).1.MeetsEnd ↔ IsBlankText (source.drop s.cursor.position)) := by
  intro s
  have hsource : s.cursor.source = source := SharedCursor.source_after _ before
  have hlength := s.cursor.length_source
  rw [hsource] at hlength
  refine ⟨?_, ?_, ?_⟩
  · intro hnone
    have hend : s.cursor.ahead = [] := Cursor.current?_eq_none_iff.mp hnone
    have hposition : s.cursor.position = source.length := by
      rw [hlength, hend]
      rfl
    refine ⟨hposition, congrArg (· + 1) hposition, fun later => ?_⟩
    have hcursor := SharedCursor.cursor_after_at_end hend later
    refine ⟨hcursor, fun request => ?_⟩
    apply (SharedCursor.serve_at_end _ request).1
    rw [hcursor, hend]
  · intro request hopen hmeets
    apply Cursor.current?_eq_none_iff.mpr
    apply SharedCursor.ahead_of_meetsEnd _ hopen hmeets
    exact SharedCursor.exhaustedBehindAll_after (fun hmem => absurd hmem List.not_mem_nil) before
  · rw [← hsource, ← s.cursor.ahead_eq_drop]
    exact Cursor.kind_next_iff

/-- Behind a null, which is a token of its own, only blanks are left. Streams opened before and
behind the end give nothing, and an advance or a look for a word changes nothing. -/
theorem text_ends_behind_null :
    let s := (SharedCursor.start "a\x00 \r\n").after [.openStream, .pull 0, .next, .skipBlanks]
    let later : List Request := [.advance, .openStream, .pull 0, .takeWord]
    let u := (SharedCursor.start "\t").after [.openStream]
    s.cursor.current? = none ∧ s.cursor.position = 5 ∧ (s.after later).cursor = s.cursor ∧
      ((s.after later).serve (.pull 1)).1 = .pulled none ∧
      0 < u.exhausted.length ∧ (u.serve (.pull 0)).1.MeetsEnd ∧
      (u.serve (.pull 0)).2.cursor.current? = none := by
  intro s later u
  have hnone : s.cursor.current? = none := by decide
  have hopen : 0 < u.exhausted.length := by decide
  have hmeets : (u.serve (.pull 0)).1.MeetsEnd := by rfl
  obtain ⟨hposition, _, hlater⟩ := (end_of_text_is_absorbing _ _).1 hnone
  obtain ⟨hcursor, hanswer⟩ := hlater later
  have hpull : ∀ stream, Request.pull 0 = .pull stream → stream < u.exhausted.length := by
    rintro _ ⟨⟩
    exact hopen
  exact ⟨hnone, hposition, hcursor, hanswer (.pull 1), hopen, hmeets,
    (end_of_text_is_absorbing "\t" [.openStream]).2.1 (.pull 0) hpull hmeets⟩

end MonkeyLexis
