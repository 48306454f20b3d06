import MonkeyLexis.Text.Basic

/-!
# Lines

A line ends with a line feed or with the end of the text. Its content is the line
without the carriage returns right before that end. A text that ends with a line
feed has no further, empty line after it.
-/

namespace MonkeyLexis
namespace Text

/-- The text with every line end, be it CR LF, CR or LF, written as one line feed. -/
def unifyLineEnds : Text → Text
  | [] => []
  | '\r' :: '\n' :: rest => '\n' :: unifyLineEnds rest
  | c :: rest => (if c = '\r' then '\n' else c) :: unifyLineEnds rest

def firstLine (t : Text) : Text := t.takeWhile (· != '\n')

def afterLine (t : Text) : Text := (t.dropWhile (· != '\n')).tail

theorem firstLine_append_cons (line rest : Text) (h : '\n' ∉ line) :
    firstLine (line ++ '\n' :: rest) = line := by
  induction line with
  | nil => simp [firstLine]
  | cons c line ih =>
    obtain ⟨hc, hl⟩ := not_or.mp (mt List.mem_cons.mpr h)
    have hc : (c != '\n') = true := by simpa using Ne.symm hc
    simpa [firstLine, hc] using ih hl

theorem afterLine_append_cons (line rest : Text) (h : '\n' ∉ line) :
    afterLine (line ++ '\n' :: rest) = rest := by
  induction line with
  | nil => simp [afterLine]
  | cons c line ih =>
    obtain ⟨hc, hl⟩ := not_or.mp (mt List.mem_cons.mpr h)
    have hc : (c != '\n') = true := by simpa using Ne.symm hc
    simpa [afterLine, hc] using ih hl

theorem length_afterLine_lt {t : Text} (h : t ≠ []) : (afterLine t).length < t.length := by
  have hd := (List.dropWhile_suffix (l := t) (· != '\n')).length_le
  have ht := List.length_pos_iff.mpr h
  rw [afterLine, List.length_tail]
  omega

/-- A line without the carriage returns at its end. -/
def lineContent (line : Text) : Text := trimEnd (· == '\r') line

def lines : Text → List Text
  | [] => []
  | c :: rest => lineContent (firstLine (c :: rest)) :: lines (afterLine (c :: rest))
termination_by t => t.length
decreasing_by exact length_afterLine_lt (by simp)

end Text
end MonkeyLexis
