import Mathlib.Data.List.TakeWhile
import MonkeyLexis.Text.Lines

/-!
# Texts as sequences of lines

A text is a last line without a line feed, or a line and a line feed in front of a
shorter text. Its lines follow this division, and so does everything that is done
line by line. Line ends can be unified piece by piece wherever a text is not cut
between a carriage return and a line feed.
-/

namespace MonkeyLexis
namespace Text

variable {line rest s t : Text} {c : Char}

/-- A text either has no line feed or has a first one. -/
@[elab_as_elim] theorem lineInduction {motive : Text → Prop}
    (last : ∀ line, '\n' ∉ line → motive line)
    (line : ∀ line rest, '\n' ∉ line → motive rest → motive (line ++ '\n' :: rest)) (t : Text) :
    motive t := by
  by_cases h : '\n' ∈ t
  · obtain ⟨first, rest, ht, hfirst⟩ := List.eq_append_cons_of_mem h
    have hlt : rest.length < t.length := by
      rw [ht, List.length_append, List.length_cons]
      omega
    rw [ht]
    exact line first rest hfirst (lineInduction last line rest)
  · exact last t h
termination_by t.length

theorem bne_of_not_mem {mark : Char} (h : mark ∉ t) : ∀ c ∈ t, (c != mark) = true := by
  intro c hc
  apply bne_iff_ne.mpr
  rintro rfl
  exact h hc

theorem firstLine_of_not_mem (h : '\n' ∉ line) : firstLine line = line :=
  List.takeWhile_eq_self_iff.mpr (bne_of_not_mem h)

theorem afterLine_of_not_mem (h : '\n' ∉ line) : afterLine line = [] := by
  have hsplit := List.takeWhile_append_dropWhile (p := (· != '\n')) (l := line)
  rw [← firstLine, firstLine_of_not_mem h, List.append_right_eq_self] at hsplit
  rw [afterLine, hsplit, List.tail_nil]

theorem firstLine_append_of_not_mem (h : '\n' ∉ s) (t : Text) :
    firstLine (s ++ t) = s ++ firstLine t :=
  List.takeWhile_append_of_pos (bne_of_not_mem h)

theorem afterLine_append_of_not_mem (h : '\n' ∉ s) (t : Text) :
    afterLine (s ++ t) = afterLine t :=
  congrArg List.tail (List.dropWhile_append_of_pos (bne_of_not_mem h))

@[simp] theorem lines_nil : lines [] = [] := by rw [lines]

theorem lines_of_ne_nil (h : t ≠ []) :
    lines t = lineContent (firstLine t) :: lines (afterLine t) := by
  cases t with
  | nil => exact absurd rfl h
  | cons c t => rw [lines]

theorem lines_of_not_mem (h : '\n' ∉ line) (hne : line ≠ []) : lines line = [lineContent line] := by
  rw [lines_of_ne_nil hne, firstLine_of_not_mem h, afterLine_of_not_mem h, lines_nil]

theorem lines_append_cons (h : '\n' ∉ line) (rest : Text) :
    lines (line ++ '\n' :: rest) = lineContent line :: lines rest := by
  rw [lines_of_ne_nil (by simp), firstLine_append_cons line rest h, afterLine_append_cons line rest h]

theorem exists_lineContent_append (line : Text) :
    ∃ returns, line = lineContent line ++ returns ∧ ∀ c ∈ returns, c = '\r' := by
  refine ⟨(line.reverse.takeWhile (· == '\r')).reverse, ?_, ?_⟩
  · rw [lineContent, trimEnd, ← List.reverse_append, List.takeWhile_append_dropWhile,
      List.reverse_reverse]
  · intro c hc
    simpa using List.mem_takeWhile_imp (List.mem_reverse.mp hc)

theorem lineContent_of_not_mem (h : '\r' ∉ line) : lineContent line = line := by
  obtain ⟨returns, hline, hreturns⟩ := exists_lineContent_append line
  cases returns with
  | nil => rw [← List.append_nil (lineContent line), ← hline]
  | cons c returns =>
    rw [hreturns c List.mem_cons_self] at hline
    rw [hline] at h
    exact absurd (List.mem_append_right _ List.mem_cons_self) h

/-- Rows without line ends in them, each ended by a line feed, are the lines of the text. -/
theorem lines_flatMap_feed {rows : List Text} (h : ∀ row ∈ rows, '\n' ∉ row ∧ '\r' ∉ row) :
    lines (rows.flatMap (· ++ ['\n'])) = rows := by
  induction rows with
  | nil => exact lines_nil
  | cons row rows ih =>
    obtain ⟨⟨hn, hr⟩, hrows⟩ := List.forall_mem_cons.mp h
    rw [List.flatMap_cons, List.append_assoc, List.singleton_append, lines_append_cons hn,
      lineContent_of_not_mem hr, ih hrows]

/-- The pieces between line feeds without the carriage returns at their ends. An empty last piece is
dropped. -/
def pieceLines (t : Text) : List Text :=
  let pieces := t.splitOn '\n'
  (if pieces.getLast? = some [] then pieces.dropLast else pieces).map lineContent

theorem pieceLines_of_not_mem (h : '\n' ∉ line) :
    pieceLines line = if line = [] then [] else [lineContent line] := by
  unfold pieceLines
  rw [List.splitOn_eq_singleton h]
  by_cases hne : line = [] <;> simp [hne]

theorem pieceLines_append_cons (h : '\n' ∉ line) (rest : Text) :
    pieceLines (line ++ '\n' :: rest) = lineContent line :: pieceLines rest := by
  obtain ⟨piece, pieces, hrest⟩ := List.exists_cons_of_ne_nil (List.splitOn_ne_nil '\n' rest)
  have hlast : (line :: piece :: pieces).getLast? = (piece :: pieces).getLast? :=
    List.getLast?_cons_cons
  have hdrop : (line :: piece :: pieces).dropLast = line :: (piece :: pieces).dropLast := rfl
  unfold pieceLines
  rw [List.splitOn_append_cons_self_of_not_mem h, hrest]
  simp only [hlast, hdrop]
  split <;> rfl

theorem lines_eq_pieceLines (t : Text) : lines t = pieceLines t := by
  induction t using lineInduction with
  | last line h =>
    rw [pieceLines_of_not_mem h]
    by_cases hne : line = []
    · rw [if_pos hne, hne, lines_nil]
    · rw [if_neg hne, lines_of_not_mem h hne]
  | line line rest h ih => rw [lines_append_cons h, pieceLines_append_cons h, ih]

theorem unifyLineEnds_cons (h : c = '\r' → t.head? ≠ some '\n') :
    unifyLineEnds (c :: t) = (if c = '\r' then '\n' else c) :: unifyLineEnds t := by
  rw [unifyLineEnds]
  rintro rest rfl rfl
  exact h rfl rfl

theorem unifyLineEnds_append (h : s.getLast? = some '\r' → t.head? ≠ some '\n') :
    unifyLineEnds (s ++ t) = unifyLineEnds s ++ unifyLineEnds t := by
  fun_induction unifyLineEnds s with
  | case1 => rfl
  | case2 rest ih =>
    have hrest : rest.getLast? = some '\r' → t.head? ≠ some '\n' := by
      intro hlast
      exact h (by simp [List.getLast?_cons, hlast])
    rw [List.cons_append, List.cons_append, unifyLineEnds, ih hrest, List.cons_append]
  | case3 c rest hc ih =>
    have hrest : rest.getLast? = some '\r' → t.head? ≠ some '\n' := by
      intro hlast
      exact h (by simp [List.getLast?_cons, hlast])
    have hcr : c = '\r' → (rest ++ t).head? ≠ some '\n' := by
      rintro rfl
      cases rest with
      | nil => exact h rfl
      | cons d rest =>
        rw [List.cons_append, List.head?_cons, ne_eq, Option.some.injEq]
        rintro rfl
        exact hc rest rfl rfl
    rw [List.cons_append, unifyLineEnds_cons hcr, ih hrest, List.cons_append]

theorem unifyLineEnds_of_not_mem (h : '\r' ∉ t) : unifyLineEnds t = t := by
  induction t with
  | nil => rfl
  | cons c t ih =>
    obtain ⟨hc, ht⟩ := not_or.mp (mt List.mem_cons.mpr h)
    have hne : c ≠ '\r' := Ne.symm hc
    rw [unifyLineEnds_cons (fun heq => absurd heq hne), if_neg hne, ih ht]

def IsLineEnd (e : Text) : Prop := e = ['\r', '\n'] ∨ e = ['\r'] ∨ e = ['\n']

theorem unifyLineEnds_cases (t : Text) :
    ('\r' ∉ t ∧ '\n' ∉ t) ∨ ∃ line e rest, t = line ++ (e ++ rest) ∧ IsLineEnd e ∧
      '\r' ∉ line ∧ '\n' ∉ line ∧ unifyLineEnds t = line ++ '\n' :: unifyLineEnds rest := by
  fun_induction unifyLineEnds t with
  | case1 => exact .inl ⟨List.not_mem_nil, List.not_mem_nil⟩
  | case2 rest ih => exact .inr ⟨[], _, rest, rfl, .inl rfl, by simp, by simp, rfl⟩
  | case3 c rest hc ih =>
    by_cases hcr : c = '\r'
    · subst hcr
      exact .inr ⟨[], _, rest, rfl, .inr (.inl rfl), by simp, by simp, rfl⟩
    by_cases hlf : c = '\n'
    · subst hlf
      exact .inr ⟨[], _, rest, rfl, .inr (.inr rfl), by simp, by simp, rfl⟩
    rw [if_neg hcr]
    rcases ih with ⟨hr, hn⟩ | ⟨line, e, rest, rfl, he, hr, hn, hunify⟩
    · left
      simp [hr, hn, Ne.symm hcr, Ne.symm hlf]
    · right
      refine ⟨c :: line, e, rest, rfl, he, ?_, ?_, ?_⟩
      · simp [hr, Ne.symm hcr]
      · simp [hn, Ne.symm hlf]
      · rw [hunify, List.cons_append]

end Text
end MonkeyLexis
