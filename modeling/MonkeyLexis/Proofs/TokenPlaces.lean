import Mathlib.Algebra.Ring.Nat
import MonkeyLexis.Proofs.Restart

/-!
# Where tokens stand

A call for the next token passes the blanks ahead and then exactly the literal of
the token, so that the literal is the piece of the source between the two places.
Every token but the last takes at least one character. So a loop that calls for
tokens until the end token makes at most one call more than there are characters
ahead, and each of these is passed once, in a literal or as a blank.
-/

namespace MonkeyLexis

open Alphabet

/-- From `p` on, the first position with a character that is no blank is `q`, or else the text is
blank from there and `q` is its end. -/
structure IsFirstVisible (source : Text) (p q : Nat) : Prop where
  le : p ≤ q
  le_length : q ≤ source.length
  blank_between : ∀ i, p ≤ i → i < q → ∀ c ∈ source[i]?, isBlank c
  visible : ∀ c ∈ source[q]?, ¬ isBlank c

theorem isFirstVisible_of_drop {source : Text} {p : Nat} {w r : Text} (hp : p ≤ source.length)
    (hw : IsBlankText w) (hr : ∀ c ∈ r.head?, ¬ isBlank c) (h : source.drop p = w ++ r) :
    IsFirstVisible source p (p + w.length) := by
  have hlength := congrArg List.length h
  rw [List.length_drop, List.length_append] at hlength
  have hget : ∀ i, source[p + i]? = (w ++ r)[i]? := by
    intro i
    rw [← h, List.getElem?_drop]
  refine ⟨Nat.le_add_right _ _, by omega, ?_, ?_⟩
  · intro i hpi hi c hc
    obtain ⟨j, rfl⟩ := Nat.exists_eq_add_of_le hpi
    rw [hget, List.getElem?_append_left (by omega)] at hc
    exact hw c (List.mem_of_getElem? hc)
  · intro c hc
    apply hr
    rw [hget, List.getElem?_append_right (Nat.le_refl _), Nat.sub_self] at hc
    rwa [List.head?_eq_getElem?]

namespace Token

theorem WellFormed.kind_ne_endOfInput {t : Token} (h : t.WellFormed) : t.kind ≠ .endOfInput := by
  cases h <;> simp

theorem WellFormed.head?_not_blank {t : Token} (h : t.WellFormed) (rest : Text) :
    ∀ c ∈ (t.literal ++ rest).head?, ¬ isBlank c := by
  obtain ⟨first, l, hl, hfirst⟩ := h.exists_literal
  simpa [hl] using hfirst

end Token

namespace Cursor

variable {c : Cursor}

/-- What a call can do: pass to the end if only blanks are ahead, or else pass the blanks and the
literal of the token behind them. -/
theorem next_shape (c : Cursor) :
    (IsBlankText c.ahead ∧ c.run isBlank = c.ahead ∧
      c.next = (Token.endOfInput, c.pass c.ahead.length)) ∨
    ∃ token rest, token.WellFormed ∧ c.ahead = c.run isBlank ++ (token.literal ++ rest) ∧
      c.next = (token, c.pass ((c.run isBlank).length + token.literal.length)) := by
  have hsplit : c.run isBlank ++ Text.skipBlanks c.ahead = c.ahead :=
    List.takeWhile_append_dropWhile
  cases h : Text.skipBlanks c.ahead with
  | nil =>
    left
    have hrun : c.run isBlank = c.ahead := by rwa [h, List.append_nil] at hsplit
    refine ⟨List.dropWhile_eq_nil_iff.mp h, hrun, ?_⟩
    rw [next_of_nil h, skipBlanks, passRun, hrun]
  | cons first rest =>
    right
    obtain ⟨l, r, hl, rfl⟩ := Token.exists_leading_split first rest
    refine ⟨_, r, Token.wellFormed_leading (not_isBlank_of_skipBlanks h) (l ++ r), ?_, ?_⟩
    · rw [hl, List.cons_append, ← h, hsplit]
    · rw [next_of_cons h, skipBlanks, passRun, pass_pass]

theorem isBlankText_run (c : Cursor) : IsBlankText (c.run isBlank) :=
  fun _ h => List.mem_takeWhile_imp h

theorem position_le_length_source (c : Cursor) : c.position ≤ c.source.length := by
  rw [length_source]
  exact Nat.le_add_right _ _

theorem next_located (c : Cursor) :
    ∃ q, IsFirstVisible c.source c.position q ∧
      c.next.1.literal = (c.source.drop q).take c.next.1.literal.length ∧
      c.next.2.position = q + c.next.1.literal.length ∧
      (c.next.1.literal.length = 0 ↔ c.next.1.kind = .endOfInput) ∧
      (c.next.1.kind = .endOfInput ↔ q = c.source.length) := by
  have hsource := c.length_source
  rcases c.next_shape with ⟨hblank, _, hnext⟩ | ⟨token, rest, htoken, hahead, hnext⟩
  · have hdrop : c.source.drop c.position = c.ahead ++ [] := by
      rw [← c.ahead_eq_drop, List.append_nil]
    have hfirst : IsFirstVisible c.source c.position (c.position + c.ahead.length) :=
      isFirstVisible_of_drop c.position_le_length_source hblank (by simp) hdrop
    refine ⟨_, hfirst, ?_⟩
    rw [hnext]
    simp [Token.endOfInput, position_pass, hsource]
  · have hdrop : c.source.drop c.position = c.run isBlank ++ (token.literal ++ rest) := by
      rw [← c.ahead_eq_drop, ← hahead]
    have hfirst : IsFirstVisible c.source c.position (c.position + (c.run isBlank).length) :=
      isFirstVisible_of_drop c.position_le_length_source c.isBlankText_run
        (htoken.head?_not_blank rest) hdrop
    have hpos : 0 < token.literal.length := List.length_pos_iff.mpr htoken.literal_ne_nil
    have hlength := congrArg List.length hahead
    simp only [List.length_append] at hlength
    refine ⟨_, hfirst, ?_⟩
    rw [hnext]
    refine ⟨?_, ?_, ?_, ?_⟩
    · rw [← List.drop_drop, ← c.ahead_eq_drop, hahead, List.drop_left, List.take_left]
    · simp only [position_pass]
      omega
    · exact iff_of_false (Nat.ne_of_gt hpos) htoken.kind_ne_endOfInput
    · apply iff_of_false htoken.kind_ne_endOfInput
      omega

theorem countP_isBlank_of_isBlankText {w : Text} (h : IsBlankText w) :
    w.countP isBlank = w.length :=
  List.countP_eq_length.mpr h

theorem countP_isBlank_literal {t : Token} (h : t.WellFormed) : t.literal.countP isBlank = 0 :=
  List.countP_eq_zero.mpr fun _ hc => h.not_isBlank_of_mem hc

theorem next_of_end (h : c.next.1.kind = .endOfInput) :
    c.next.1 = Token.endOfInput ∧ lexemes c.ahead = [] ∧
      c.ahead.countP isBlank = (c.run isBlank).length := by
  rcases c.next_shape with ⟨hblank, hrun, hnext⟩ | ⟨token, rest, htoken, _, hnext⟩
  · refine ⟨congrArg Prod.fst hnext, lexemes_eq_nil_iff.mpr hblank, ?_⟩
    rw [hrun, countP_isBlank_of_isBlankText hblank]
  · rw [hnext] at h
    exact absurd h htoken.kind_ne_endOfInput

/-- Before the end one token is taken, and the blanks in front of it are skipped. -/
theorem next_of_ne_end (h : c.next.1.kind ≠ .endOfInput) :
    lexemes c.ahead = c.next.1 :: lexemes c.next.2.ahead ∧
      c.ahead.countP isBlank = (c.run isBlank).length + c.next.2.ahead.countP isBlank := by
  rcases c.next_shape with ⟨_, _, hnext⟩ | ⟨token, rest, htoken, hahead, hnext⟩
  · rw [hnext] at h
    exact absurd rfl h
  · rcases c.next_cases with ⟨_, hend, _⟩ | ⟨_, hcons⟩
    · rw [hend] at h
      exact absurd rfl h
    refine ⟨hcons, ?_⟩
    have hrest : c.next.2.ahead = rest := by
      rw [hnext, ahead_pass, hahead, ← List.length_append, ← List.append_assoc, List.drop_left]
    calc
      c.ahead.countP isBlank
        = (c.run isBlank ++ (token.literal ++ rest)).countP isBlank := congrArg _ hahead
      _ = (c.run isBlank).length + (0 + rest.countP isBlank) := by
        rw [List.countP_append, List.countP_append, countP_isBlank_literal htoken,
          countP_isBlank_of_isBlankText c.isBlankText_run]
      _ = (c.run isBlank).length + c.next.2.ahead.countP isBlank := by rw [hrest, Nat.zero_add]

/-- The tokens that a loop has collected, the number of blanks that it has skipped, and where it has
left the cursor. -/
structure Collected where
  tokens : List Token
  skipped : Nat
  last : Cursor

/-- Calls for tokens until the end token, for which `atEnd` is kept. The loop gives up when `calls`
calls have not been enough. -/
def collectWithin (atEnd : Token → List Token) : (calls : Nat) → Cursor → Option Collected
  | 0, _ => none
  | calls + 1, c =>
    let skipped := (c.run isBlank).length
    if c.next.1.kind = .endOfInput then some ⟨atEnd c.next.1, skipped, c.next.2⟩
    else (collectWithin atEnd calls c.next.2).map fun r =>
      ⟨c.next.1 :: r.tokens, skipped + r.skipped, r.last⟩

/-- The loop ends if it may make one call for each token and one more for the end. It then has the
tokens ahead and has skipped the blanks ahead. -/
theorem collectWithin_eq (atEnd : Token → List Token) (calls : Nat) (c : Cursor) :
    c.collectWithin atEnd calls =
      if (lexemes c.ahead).length < calls then
        some ⟨lexemes c.ahead ++ atEnd Token.endOfInput, c.ahead.countP isBlank, c.drain.2⟩
      else none := by
  induction calls generalizing c with
  | zero => rfl
  | succ calls ih =>
    rw [collectWithin, drain]
    by_cases h : c.next.1.kind = .endOfInput
    · obtain ⟨hend, hlexemes, hblanks⟩ := next_of_end h
      rw [if_pos h, dif_pos h, hlexemes, hblanks, hend]
      exact (if_pos (Nat.succ_pos calls)).symm
    · obtain ⟨hlexemes, hblanks⟩ := next_of_ne_end h
      rw [if_neg h, dif_neg h, ih, hlexemes, hblanks]
      simp only [List.length_cons, Nat.add_lt_add_iff_right]
      split <;> rfl

end Cursor

/-- Every character of a text is in one literal or is a blank. -/
theorem sum_length_literal_add_blanks (t : Text) :
    ((lexemes t).map (·.literal.length)).sum + t.countP isBlank = t.length := by
  induction t using Text.tokenInduction with
  | blank w hw =>
    rw [lexemes_eq_nil_iff.mpr hw, Cursor.countP_isBlank_of_isBlankText hw]
    exact Nat.zero_add _
  | token w t r hw ht hr ih =>
    rw [lexemes_token hw ht hr]
    simp only [List.map_cons, List.sum_cons, List.countP_append, List.length_append,
      Cursor.countP_isBlank_of_isBlankText hw, Cursor.countP_isBlank_literal ht]
    omega

theorem length_lexemes_le (t : Text) : (lexemes t).length ≤ t.length := by
  induction t using Text.tokenInduction with
  | blank w hw =>
    rw [lexemes_eq_nil_iff.mpr hw]
    exact Nat.zero_le _
  | token w t r hw ht hr ih =>
    have hpos : 0 < t.literal.length := List.length_pos_iff.mpr ht.literal_ne_nil
    rw [lexemes_token hw ht hr]
    simp only [List.length_cons, List.length_append]
    omega

/-- Wherever a cursor has got to, the next token is the piece of the source behind the blanks there,
and the cursor moves right behind it; the piece is empty for the end token alone. So the loops that
take all tokens end within one call more than there are characters left. Their literals and the
blanks that they skip make up what is left. -/
theorem tokens_are_located (source : Text) (before : List Request) :
    let s := (SharedCursor.start source).after before
    let p := s.cursor.position
    (∃ q token t, IsFirstVisible source p q ∧ s.serve .next = (.token token, t) ∧
      token.literal = (source.drop q).take token.literal.length ∧
      t.cursor.position = q + token.literal.length ∧
      (token.literal.length = 0 ↔ token.kind = .endOfInput) ∧
      (token.kind = .endOfInput ↔ q = source.length)) ∧
    ∃ tokens skipped last,
      s.serve .scan = (.tokens (tokens ++ [Token.endOfInput]), ⟨last, s.exhausted⟩) ∧
      s.serve .drain = (.tokens tokens, ⟨last, s.exhausted⟩) ∧
      s.cursor.collectWithin (fun token => [token]) (source.length - p + 1) =
        some ⟨tokens ++ [Token.endOfInput], skipped, last⟩ ∧
      s.cursor.collectWithin (fun _ => []) (source.length - p + 1) =
        some ⟨tokens, skipped, last⟩ ∧
      (tokens ++ [Token.endOfInput]).countP (·.kind == .endOfInput) = 1 ∧
      skipped = (source.drop p).countP isBlank ∧
      ((tokens ++ [Token.endOfInput]).map (·.literal.length)).sum + skipped =
        source.length - p := by
  intro s p
  have hsource : s.cursor.source = source := SharedCursor.source_after _ before
  have hlength : s.cursor.ahead.length = source.length - p := by
    rw [s.cursor.ahead_eq_drop, hsource, List.length_drop]
  constructor
  · obtain ⟨q, hq⟩ := s.cursor.next_located
    rw [hsource] at hq
    exact ⟨q, _, _, hq.1, rfl, hq.2⟩
  · let tokens := lexemes s.cursor.ahead
    have hcalls : tokens.length < source.length - p + 1 := by
      rw [← hlength]
      exact Nat.lt_succ_of_le (length_lexemes_le s.cursor.ahead)
    have hdrain : s.cursor.drain = (tokens, s.cursor.drain.2) :=
      Prod.ext s.cursor.drain_tokens rfl
    have hscan : s.cursor.scan = (tokens ++ [Token.endOfInput], s.cursor.drain.2) := by
      rw [Cursor.scan, hdrain]
    have hends : tokens.countP (·.kind == .endOfInput) = 0 := by
      apply List.countP_eq_zero.mpr
      intro token htoken
      simpa using kind_ne_endOfInput_of_mem_lexemes htoken
    refine ⟨tokens, s.cursor.ahead.countP isBlank, s.cursor.drain.2, ?_, ?_, ?_, ?_, ?_, ?_, ?_⟩
    · rw [SharedCursor.serve, hscan]
    · rw [SharedCursor.serve, hdrain]
    · rw [Cursor.collectWithin_eq, if_pos hcalls]
    · rw [Cursor.collectWithin_eq, if_pos hcalls, List.append_nil]
    · rw [List.countP_append, hends]
      rfl
    · rw [s.cursor.ahead_eq_drop, hsource]
    · calc
        ((tokens ++ [Token.endOfInput]).map (·.literal.length)).sum + s.cursor.ahead.countP isBlank
          = (tokens.map (·.literal.length)).sum + s.cursor.ahead.countP isBlank := by
            simp [Token.endOfInput]
        _ = s.cursor.ahead.length := sum_length_literal_add_blanks s.cursor.ahead
        _ = source.length - p := hlength

end MonkeyLexis
