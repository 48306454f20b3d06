import MonkeyLexis.Proofs.Lines

/-!
# Written lines

A line is written as its content, some carriage returns and a line feed. The last line
feed may be left off, provided that something stands before it on its line. Every text
is written in exactly one such way, and its lines are the contents that were written.
So a last line that consists of carriage returns alone is a line, and an empty one
without its line feed is none.
-/

namespace MonkeyLexis
namespace Text

/-- A line to be written: its content, and the number of carriage returns behind it. All of them
are counted, so that the content does not end with one. -/
@[ext] structure WrittenLine where
  content : Text
  returns : Nat
  feed_not_mem : '\n' ∉ content
  getLast?_ne_return : content.getLast? ≠ some '\r'

namespace WrittenLine

def text (l : WrittenLine) : Text := l.content ++ List.replicate l.returns '\r'

def full (l : WrittenLine) : Text := l.text ++ ['\n']

end WrittenLine

/-- Lines to be written, and whether the last one gets its line feed. Only a line on which
something else is written can do without it. -/
@[ext] structure Writing where
  lines : List WrittenLine
  ended : Bool
  text_ne_nil : ended = false → ∃ l ∈ lines.getLast?, l.text ≠ []

namespace Writing

def text (w : Writing) : Text :=
  let full := w.lines.flatMap WrittenLine.full
  if w.ended then full else full.dropLast

def contents (w : Writing) : List Text := w.lines.map WrittenLine.content

end Writing

variable {line rest : Text}

theorem trimEnd_append_of_all {p : Char → Bool} (s : Text) {t : Text} (h : ∀ c ∈ t, p c = true) :
    trimEnd p (s ++ t) = trimEnd p s := by
  unfold trimEnd
  rw [List.reverse_append, List.dropWhile_append_of_pos]
  intro c hc
  exact h c (List.mem_reverse.mp hc)

theorem trimEnd_eq_self {p : Char → Bool} {t : Text} (h : ∀ c ∈ t.getLast?, p c = false) :
    trimEnd p t = t := by
  have hdrop : t.reverse.dropWhile p = t.reverse := by
    rw [← List.head?_reverse] at h
    cases hr : t.reverse with
    | nil => rfl
    | cons c r =>
      rw [hr] at h
      exact List.dropWhile_cons_of_neg (by simp [h c rfl])
  rw [trimEnd, hdrop, List.reverse_reverse]

theorem getLast?_lineContent_ne_return (line : Text) :
    (lineContent line).getLast? ≠ some '\r' := by
  intro h
  have hhead := List.head?_dropWhile_not (· == '\r') line.reverse
  rw [lineContent, trimEnd, List.getLast?_reverse] at h
  rw [h] at hhead
  simp at hhead

theorem feed_not_mem_lineContent (h : '\n' ∉ line) : '\n' ∉ lineContent line := by
  obtain ⟨returns, hline, _⟩ := exists_lineContent_append line
  intro hmem
  rw [hline] at h
  exact h (List.mem_append_left _ hmem)

namespace WrittenLine

variable {l m : WrittenLine}

theorem lineContent_text (l : WrittenLine) : lineContent l.text = l.content := by
  have hreturns : ∀ c ∈ List.replicate l.returns '\r', (c == '\r') = true := by
    intro c hc
    exact beq_iff_eq.mpr (List.eq_of_mem_replicate hc)
  have hcontent : ∀ c ∈ l.content.getLast?, (c == '\r') = false := by
    intro c hc
    apply beq_eq_false_iff_ne.mpr
    rintro rfl
    exact l.getLast?_ne_return hc
  unfold lineContent text
  rw [trimEnd_append_of_all l.content hreturns, trimEnd_eq_self hcontent]

theorem feed_not_mem_text (l : WrittenLine) : '\n' ∉ l.text := by
  unfold text
  simp [l.feed_not_mem, List.mem_replicate]

/-- A line is written in one way only: its content is what the carriage returns at its end leave,
and their number follows from the lengths. -/
theorem text_injective (h : l.text = m.text) : l = m := by
  have hcontent : l.content = m.content := by
    rw [← l.lineContent_text, h, m.lineContent_text]
  have hlength := congrArg List.length h
  simp only [text, List.length_append, List.length_replicate, hcontent] at hlength
  exact WrittenLine.ext hcontent (Nat.add_left_cancel hlength)

theorem exists_text_eq (h : '\n' ∉ line) : ∃ l : WrittenLine, l.text = line := by
  obtain ⟨returns, hline, hreturns⟩ := exists_lineContent_append line
  have hreplicate : returns = List.replicate returns.length '\r' :=
    List.eq_replicate_iff.mpr ⟨rfl, hreturns⟩
  refine ⟨⟨lineContent line, returns.length, feed_not_mem_lineContent h,
    getLast?_lineContent_ne_return line⟩, ?_⟩
  unfold text
  rw [← hreplicate]
  exact hline.symm

end WrittenLine

/-- Lines with their line feeds, and what stands behind them. -/
def fullThen (ls : List WrittenLine) (tail : Text) : Text :=
  ls.flatMap WrittenLine.full ++ tail

variable {l m : WrittenLine} {ls ms : List WrittenLine} {tail other : Text}

theorem fullThen_nil (tail : Text) : fullThen [] tail = tail := rfl

theorem fullThen_cons (l : WrittenLine) (ls : List WrittenLine) (tail : Text) :
    fullThen (l :: ls) tail = l.text ++ '\n' :: fullThen ls tail := by
  simp [fullThen, WrittenLine.full]

theorem lines_fullThen (ls : List WrittenLine) (tail : Text) :
    lines (fullThen ls tail) = ls.map WrittenLine.content ++ lines tail := by
  induction ls with
  | nil => rfl
  | cons l ls ih =>
    rw [fullThen_cons, lines_append_cons l.feed_not_mem_text, ih, l.lineContent_text]
    rfl

theorem append_cons_inj (hl : '\n' ∉ line) {last : Text} (hr : '\n' ∉ last) (s t : Text) :
    line ++ '\n' :: s = last ++ '\n' :: t ↔ line = last ∧ s = t := by
  constructor
  · intro h
    have hfirst := congrArg firstLine h
    have hafter := congrArg afterLine h
    rw [firstLine_append_cons line s hl, firstLine_append_cons last t hr] at hfirst
    rw [afterLine_append_cons line s hl, afterLine_append_cons last t hr] at hafter
    exact ⟨hfirst, hafter⟩
  · rintro ⟨rfl, rfl⟩
    rfl

/-- Both lists of lines end where the last line feed is. -/
theorem fullThen_injective (ht : '\n' ∉ tail) (ho : '\n' ∉ other)
    (h : fullThen ls tail = fullThen ms other) : ls = ms ∧ tail = other := by
  induction ls generalizing ms with
  | nil =>
    cases ms with
    | nil => exact ⟨rfl, h⟩
    | cons m ms =>
      rw [fullThen_nil, fullThen_cons] at h
      rw [h] at ht
      simp at ht
  | cons l ls ih =>
    cases ms with
    | nil =>
      rw [fullThen_nil, fullThen_cons] at h
      rw [← h] at ho
      simp at ho
    | cons m ms =>
      rw [fullThen_cons, fullThen_cons,
        append_cons_inj l.feed_not_mem_text m.feed_not_mem_text] at h
      obtain ⟨rfl, rfl⟩ := ih h.2
      rw [WrittenLine.text_injective h.1]
      exact ⟨rfl, rfl⟩

theorem exists_fullThen (t : Text) : ∃ ls tail, '\n' ∉ tail ∧ fullThen ls tail = t := by
  induction t using lineInduction with
  | last line h => exact ⟨[], line, h, rfl⟩
  | line line rest h ih =>
    obtain ⟨ls, tail, htail, rfl⟩ := ih
    obtain ⟨l, rfl⟩ := WrittenLine.exists_text_eq h
    exact ⟨l :: ls, tail, htail, fullThen_cons l ls tail⟩

namespace Writing

variable {w v : Writing}

def ofFull (ls : List WrittenLine) : Writing := ⟨ls, true, by simp⟩

def ofOpen (ls : List WrittenLine) (l : WrittenLine) (h : l.text ≠ []) : Writing :=
  ⟨ls ++ [l], false, fun _ => ⟨l, by simp, h⟩⟩

theorem text_ofFull (ls : List WrittenLine) : (ofFull ls).text = fullThen ls [] :=
  (List.append_nil _).symm

theorem text_ofOpen (ls : List WrittenLine) (l : WrittenLine) (h : l.text ≠ []) :
    (ofOpen ls l h).text = fullThen ls l.text := by
  simp [ofOpen, text, fullThen, WrittenLine.full, List.dropLast_append_of_ne_nil]

theorem eq_ofFull_or_ofOpen (w : Writing) :
    (∃ ls, w = ofFull ls) ∨ ∃ ls l h, w = ofOpen ls l h := by
  obtain ⟨ls, _ | _, htext⟩ := w
  · obtain ⟨l, hl, hne⟩ := htext rfl
    obtain ⟨ls, rfl⟩ := List.getLast?_eq_some_iff.mp hl
    exact .inr ⟨ls, l, hne, rfl⟩
  · exact .inl ⟨ls, rfl⟩

theorem lines_text (w : Writing) : Text.lines w.text = w.contents := by
  rcases w.eq_ofFull_or_ofOpen with ⟨ls, rfl⟩ | ⟨ls, l, hne, rfl⟩
  · rw [text_ofFull, lines_fullThen, lines_nil, List.append_nil]
    rfl
  · rw [text_ofOpen, lines_fullThen, lines_of_not_mem l.feed_not_mem_text hne, l.lineContent_text]
    simp [contents, ofOpen]

theorem text_injective (h : w.text = v.text) : w = v := by
  rcases w.eq_ofFull_or_ofOpen with ⟨ls, rfl⟩ | ⟨ls, l, hl, rfl⟩ <;>
    rcases v.eq_ofFull_or_ofOpen with ⟨ms, rfl⟩ | ⟨ms, m, hm, rfl⟩
  case inl.inl =>
    rw [text_ofFull, text_ofFull] at h
    rw [(fullThen_injective List.not_mem_nil List.not_mem_nil h).1]
  case inl.inr =>
    rw [text_ofFull, text_ofOpen] at h
    exact absurd (fullThen_injective List.not_mem_nil m.feed_not_mem_text h).2.symm hm
  case inr.inl =>
    rw [text_ofOpen, text_ofFull] at h
    exact absurd (fullThen_injective l.feed_not_mem_text List.not_mem_nil h).2 hl
  case inr.inr =>
    rw [text_ofOpen, text_ofOpen] at h
    obtain ⟨rfl, htail⟩ := fullThen_injective l.feed_not_mem_text m.feed_not_mem_text h
    cases WrittenLine.text_injective htail
    rfl

theorem exists_text_eq (t : Text) : ∃ w : Writing, w.text = t := by
  obtain ⟨ls, tail, htail, rfl⟩ := exists_fullThen t
  by_cases hne : tail = []
  · subst hne
    exact ⟨ofFull ls, text_ofFull ls⟩
  · obtain ⟨l, rfl⟩ := WrittenLine.exists_text_eq htail
    exact ⟨ofOpen ls l hne, text_ofOpen ls l hne⟩

end Writing

theorem length_lines (t : Text) :
    (lines t).length = t.count '\n' + if t ≠ [] ∧ t.getLast? ≠ some '\n' then 1 else 0 := by
  induction t using lineInduction with
  | last line h =>
    have hlast : line.getLast? ≠ some '\n' := fun hlast => h (List.mem_of_getLast? hlast)
    rw [List.count_eq_zero_of_not_mem h]
    by_cases hne : line = []
    · simp [hne]
    · simp [lines_of_not_mem h hne, hne, hlast]
  | line line rest h ih =>
    rw [lines_append_cons h, List.length_cons, ih, List.count_append,
      List.count_eq_zero_of_not_mem h, List.count_cons_self]
    cases rest with
    | nil => simp
    | cons c rest => simp; omega

/-- Writing lines and taking the lines of a text undo each other. Whatever contents are written,
with any number of carriage returns behind each of them, are the lines of the text that is written;
and every text is written in exactly one way. So no line has a line feed in it or a carriage return
at its end, and there is a line for every line feed and one for what stands behind the last. -/
theorem lines_invert_writing :
    (∀ w : Writing, lines w.text = w.contents) ∧
      (∀ t : Text, ∃! w : Writing, w.text = t) ∧
      ∀ t : Text,
        (∀ line ∈ lines t, '\n' ∉ line ∧ line.getLast? ≠ some '\r') ∧
          (lines t).length = t.count '\n' + if t ≠ [] ∧ t.getLast? ≠ some '\n' then 1 else 0 := by
  refine ⟨Writing.lines_text, ?unique, ?lines⟩
  case unique =>
    intro t
    obtain ⟨w, hw⟩ := Writing.exists_text_eq t
    exact ⟨w, hw, fun v hv => Writing.text_injective (hv.trans hw.symm)⟩
  case lines =>
    intro t
    refine ⟨?_, length_lines t⟩
    intro line hline
    obtain ⟨w, rfl⟩ := Writing.exists_text_eq t
    rw [w.lines_text] at hline
    obtain ⟨l, _, rfl⟩ := List.mem_map.mp hline
    exact ⟨l.feed_not_mem, l.getLast?_ne_return⟩

example : lines "a\r\r\n\n\r" = [['a'], [], []] := by decide +kernel

end Text
end MonkeyLexis
