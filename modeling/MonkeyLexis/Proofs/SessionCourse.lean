import MonkeyLexis.Proofs.SessionLines

/-!
# The course of a session

A session is a loop of rounds. A round shows the prompt and takes the text up to its
next line feed; without the line ends behind it this is a line, which is echoed unless
it ends the session. The course of the loop is told as a relation, so that it may as
well have no end: there is one, after one round for each line before the first `exit`
and one round more. What is left unread begins behind the line feed of that `exit`.
-/

namespace MonkeyLexis

namespace Text

variable {line rest t : Text}

/-- The text up to its first line feed, which is included. -/
def chunk (t : Text) : Text := t.take (t.idxOf '\n' + 1)

def behindChunk (t : Text) : Text := t.drop (t.idxOf '\n' + 1)

def isLineEndChar (c : Char) : Bool := c == '\r' || c == '\n'

theorem idxOf_append_cons (h : '\n' ∉ line) (rest : Text) :
    (line ++ '\n' :: rest).idxOf '\n' = line.length := by
  rw [List.idxOf_append_of_notMem h, List.idxOf_cons_self, Nat.add_zero]

theorem chunk_of_not_mem (h : '\n' ∉ line) : chunk line = line := by
  unfold chunk
  rw [List.idxOf_eq_length h]
  exact List.take_of_length_le (Nat.le_succ _)

theorem chunk_append_cons (h : '\n' ∉ line) (rest : Text) :
    chunk (line ++ '\n' :: rest) = line ++ ['\n'] := by
  have hwhole : line.take (line.length + 1) = line := List.take_of_length_le (Nat.le_succ _)
  unfold chunk
  rw [idxOf_append_cons h, List.take_append, hwhole]
  simp

theorem behindChunk_eq_afterLine (t : Text) : behindChunk t = afterLine t := by
  unfold behindChunk
  by_cases h : '\n' ∈ t
  · obtain ⟨line, rest, rfl, hline⟩ := List.eq_append_cons_of_mem h
    rw [idxOf_append_cons hline, afterLine_append_cons line rest hline, List.drop_append]
    simp
  · rw [afterLine_of_not_mem h, List.idxOf_eq_length h]
    exact List.drop_of_length_le (Nat.le_succ _)

theorem dropWhile_congr {p q : Char → Bool} (h : ∀ c ∈ t, p c = q c) :
    t.dropWhile p = t.dropWhile q := by
  induction t with
  | nil => rfl
  | cons c t ih =>
    have hlater := ih fun d hd => h d (List.mem_cons_of_mem c hd)
    rw [List.dropWhile_cons, List.dropWhile_cons, h c List.mem_cons_self, hlater]

theorem trimEnd_isLineEndChar_of_not_mem (h : '\n' ∉ line) :
    trimEnd isLineEndChar line = lineContent line := by
  apply congrArg List.reverse
  apply dropWhile_congr
  intro c hc
  have hne : c ≠ '\n' := by
    rintro rfl
    exact h (List.mem_reverse.mp hc)
  simp [isLineEndChar, hne]

theorem trimEnd_chunk (t : Text) : trimEnd isLineEndChar (chunk t) = lineContent (firstLine t) := by
  by_cases h : '\n' ∈ t
  · obtain ⟨line, rest, rfl, hline⟩ := List.eq_append_cons_of_mem h
    rw [chunk_append_cons hline, firstLine_append_cons line rest hline, trimEnd_append_singleton]
    exact trimEnd_isLineEndChar_of_not_mem hline
  · rw [chunk_of_not_mem h, firstLine_of_not_mem h]
    exact trimEnd_isLineEndChar_of_not_mem h

/-- What stands behind the `n`-th line feed, or nothing if there are not so many. -/
def IsBehindFeed (n : Nat) (t rest : Text) : Prop :=
  (∃ s, t = s ++ '\n' :: rest ∧ s.count '\n' + 1 = n) ∨ (t.count '\n' < n ∧ rest = [])

theorem isBehindFeed_first (h : '\n' ∉ line) (rest : Text) :
    IsBehindFeed 1 (line ++ '\n' :: rest) rest := by
  left
  exact ⟨line, rfl, by rw [List.count_eq_zero_of_not_mem h]⟩

theorem isBehindFeed_of_not_mem (h : '\n' ∉ line) (n : Nat) : IsBehindFeed (n + 1) line [] := by
  right
  exact ⟨by rw [List.count_eq_zero_of_not_mem h]; exact Nat.succ_pos n, rfl⟩

theorem IsBehindFeed.append_line {n : Nat} {rest later : Text} (h : IsBehindFeed n later rest)
    (hline : '\n' ∉ line) : IsBehindFeed (n + 1) (line ++ '\n' :: later) rest := by
  have hcount := List.count_eq_zero_of_not_mem hline
  rcases h with ⟨s, rfl, hs⟩ | ⟨hlt, rfl⟩
  · left
    refine ⟨line ++ '\n' :: s, by simp, ?_⟩
    rw [List.count_append, List.count_cons_self, hcount]
    omega
  · right
    refine ⟨?_, rfl⟩
    rw [List.count_append, List.count_cons_self, hcount]
    omega

end Text

namespace Session

open Text Input

variable {prompt t : Text} {n : Nat} {u : Transcript}

/-- The tokens of a line but for the last, which ends every line, with a line feed behind each. -/
def shown (line : Text) : Text :=
  (tokens line).dropLast.flatMap fun token => token.display ++ ['\n']

theorem echo_eq_shown (line : Text) : echo line = shown line := by
  rw [shown, tokens, List.dropLast_concat]
  rfl

/-- A session on a text that ends after some number of rounds. -/
inductive Rounds (prompt : Text) : Text → Nat → Transcript → Prop
  | ended : Rounds prompt [] 1 ⟨prompt, .inputEnded, []⟩
  | exited {t : Text} (hne : t ≠ []) (h : trimEnd isLineEndChar (chunk t) = "exit") :
      Rounds prompt t 1 ⟨prompt, .exited, behindChunk t⟩
  | echoed {t : Text} {n : Nat} {later : Transcript} (hne : t ≠ [])
      (h : trimEnd isLineEndChar (chunk t) ≠ "exit") :
      Rounds prompt (behindChunk t) n later →
        Rounds prompt t (n + 1)
          { later with
            output := prompt ++ shown (trimEnd isLineEndChar (chunk t)) ++ later.output }

theorem rounds_nil_iff : Rounds prompt [] n u ↔ n = 1 ∧ u = ⟨prompt, .inputEnded, []⟩ := by
  constructor
  · rintro (_ | ⟨hne, _⟩ | ⟨hne, _, _⟩)
    · exact ⟨rfl, rfl⟩
    · exact absurd rfl hne
    · exact absurd rfl hne
  · rintro ⟨rfl, rfl⟩
    exact .ended

theorem rounds_iff_of_exit (hne : t ≠ []) (h : trimEnd isLineEndChar (chunk t) = "exit") :
    Rounds prompt t n u ↔ n = 1 ∧ u = ⟨prompt, .exited, behindChunk t⟩ := by
  constructor
  · rintro (_ | _ | ⟨_, hline, _⟩)
    · exact absurd rfl hne
    · exact ⟨rfl, rfl⟩
    · exact absurd h hline
  · rintro ⟨rfl, rfl⟩
    exact .exited hne h

theorem rounds_iff_of_line (hne : t ≠ []) (h : trimEnd isLineEndChar (chunk t) ≠ "exit") :
    Rounds prompt t n u ↔ ∃ m later, Rounds prompt (behindChunk t) m later ∧ n = m + 1 ∧
      u = { later with
        output := prompt ++ shown (trimEnd isLineEndChar (chunk t)) ++ later.output } := by
  constructor
  · rintro (_ | ⟨_, hline⟩ | ⟨_, _, hlater⟩)
    · exact absurd rfl hne
    · exact absurd hline h
    · exact ⟨_, _, hlater, rfl, rfl⟩
  · rintro ⟨m, later, hlater, rfl, rfl⟩
    exact .echoed hne h hlater

/-- The loop ends in exactly one way, after a round for each line before the first `exit` and one
more. -/
theorem rounds_iff (prompt t : Text) :
    ∀ n u, Rounds prompt t n u ↔ n = (lines t).idxOf exitWord + 1 ∧ u = run prompt (ofText t) := by
  fun_induction lines t with
  | case1 =>
    intro n u
    rw [rounds_nil_iff, run_ofText_nil]
    rfl
  | case2 c rest ih =>
    intro n u
    have hne := List.cons_ne_nil c rest
    have hline := trimEnd_chunk (c :: rest)
    have hbehind := behindChunk_eq_afterLine (c :: rest)
    rw [run_ofText_of_ne_nil hne, echo_eq_shown]
    by_cases hexit : lineContent (firstLine (c :: rest)) = exitWord
    · rw [rounds_iff_of_exit hne (hline.trans hexit), if_pos hexit, hbehind, hexit,
        List.idxOf_cons_self]
    · rw [rounds_iff_of_line hne (by rw [hline]; exact hexit), if_neg hexit, hline, hbehind,
        List.idxOf_cons_ne _ hexit]
      simp only [ih]
      constructor
      · rintro ⟨m, later, ⟨rfl, rfl⟩, rfl, rfl⟩
        exact ⟨rfl, rfl⟩
      · rintro ⟨rfl, rfl⟩
        exact ⟨_, _, ⟨rfl, rfl⟩, rfl, rfl⟩

theorem isBehindFeed_unread (prompt : Text) (h : exitWord ∈ lines t) :
    IsBehindFeed ((lines t).idxOf exitWord + 1) t (run prompt (ofText t)).unread := by
  induction t using lineInduction with
  | last line hline =>
    by_cases hne : line = []
    · rw [hne, lines_nil] at h
      exact absurd h List.not_mem_nil
    · rw [lines_of_not_mem hline hne, List.mem_singleton] at h
      rw [run_ofText_of_ne_nil hne, firstLine_of_not_mem hline, if_pos h.symm,
        afterLine_of_not_mem hline]
      exact isBehindFeed_of_not_mem hline _
  | line line rest hline ih =>
    rw [lines_append_cons hline] at h
    rw [lines_append_cons hline, run_ofText_of_ne_nil (by simp),
      firstLine_append_cons line rest hline, afterLine_append_cons line rest hline]
    by_cases hexit : lineContent line = exitWord
    · rw [if_pos hexit, hexit, List.idxOf_cons_self]
      exact isBehindFeed_first hline rest
    · have hlater : exitWord ∈ lines rest := (List.mem_cons.mp h).resolve_left (Ne.symm hexit)
      rw [if_neg hexit, List.idxOf_cons_ne _ hexit]
      exact (ih hlater).append_line hline

theorem unread_of_not_mem (prompt : Text) (h : exitWord ∉ lines t) :
    (run prompt (ofText t)).unread = [] := by
  fun_induction lines t with
  | case1 => rw [run_ofText_nil]
  | case2 c rest ih =>
    obtain ⟨hline, hlater⟩ := not_or.mp (mt List.mem_cons.mpr h)
    rw [run_ofText_of_ne_nil (List.cons_ne_nil c rest), if_neg (Ne.symm hline)]
    exact ih hlater

/-- The lines of a text are the pieces between its line feeds. A session shows the prompt and the
tokens of each line before the first `exit`, and the prompt once more; then it has the status 0 and
leaves what stands behind that line. Without an `exit` it shows all lines in this way, has the status
1 and leaves nothing. It takes a round for each line that it shows and one more. -/
theorem session_course (prompt t : Text) :
    let exit : Text := "exit"
    let lines := pieceLines t
    let k := lines.idxOf exit
    let out := fun line => (tokens line).dropLast.flatMap fun token => token.display ++ ['\n']
    let transcript := run prompt (ofText t)
    (∀ n u, Rounds prompt t n u ↔ n = k + 1 ∧ u = transcript) ∧
      if exit ∈ lines then
        transcript.ending.status = .ok 0 ∧
          transcript.output = (lines.take k).flatMap (fun line => prompt ++ out line) ++ prompt ∧
          IsBehindFeed (k + 1) t transcript.unread
      else
        transcript.ending.status = .ok 1 ∧
          transcript.output = lines.flatMap (fun line => prompt ++ out line) ++ prompt ∧
          transcript.unread = [] := by
  intro exit lines k out transcript
  have hlines : Text.lines t = lines := lines_eq_pieceLines t
  have hout : echo = out := funext echo_eq_shown
  have hrounds := rounds_iff prompt t
  have houtput := output_run_ofText prompt t
  have hending : transcript.ending = if exit ∈ Text.lines t then .exited else .inputEnded :=
    ending_run_ofText prompt t
  rw [hlines, hout] at houtput
  rw [hlines] at hrounds hending
  refine ⟨hrounds, ?_⟩
  by_cases hexit : exit ∈ lines
  · rw [if_pos hexit] at hending ⊢
    have hunread := isBehindFeed_unread prompt (hlines.symm ▸ hexit)
    rw [hlines] at hunread
    exact ⟨congrArg Ending.status hending, houtput, hunread⟩
  · rw [if_neg hexit] at hending ⊢
    have hall : lines.take k = lines := List.take_of_length_le (List.idxOf_eq_length hexit).ge
    refine ⟨congrArg Ending.status hending, ?_, unread_of_not_mem prompt (hlines.symm ▸ hexit)⟩
    calc
      transcript.output = (lines.take k).flatMap (fun line => prompt ++ out line) ++ prompt :=
        houtput
      _ = lines.flatMap (fun line => prompt ++ out line) ++ prompt := by rw [hall]

/-- Told to end on its second line, a session leaves the third. A blank behind the word keeps it from
ending a session. -/
theorem session_ends_at_second_line :
    let told := run ">> " (ofText "let a\nexit\r\nb")
    let untold := run ">> " (ofText "exit \r\n\r")
    (Rounds ">> " "let a\nexit\r\nb" 2 told ∧ told.ending.status = .ok 0 ∧
        told.output = ">> LET('let')\nIDENT('a')\n>> " ∧ told.unread = "b") ∧
      Rounds ">> " "exit \r\n\r" 3 untold ∧ untold.ending.status = .ok 1 ∧
        untold.output = ">> IDENT('exit')\n>> >> " ∧ untold.unread = [] := by
  intro told untold
  obtain ⟨htold, hcourse⟩ := session_course ">> " "let a\nexit\r\nb"
  obtain ⟨huntold, hwhole⟩ := session_course ">> " "exit \r\n\r"
  rw [if_pos (by decide +kernel)] at hcourse
  rw [if_neg (by decide +kernel)] at hwhole
  obtain ⟨hstatus, houtput, _⟩ := hcourse
  obtain ⟨hstatus', houtput', hunread'⟩ := hwhole
  refine ⟨⟨(htold _ _).mpr ⟨?_, rfl⟩, hstatus, houtput.trans ?_, ?_⟩,
    (huntold _ _).mpr ⟨?_, rfl⟩, hstatus', houtput'.trans ?_, hunread'⟩
  all_goals decide +kernel

end Session
end MonkeyLexis
