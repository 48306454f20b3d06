import MonkeyLexis.Proofs.ListingReading

/-!
# Carriage returns on their own

A carriage return that no line feed follows is part of a line, or at most dropped at
its end. Unifying line ends turns it into a line feed, and from there on the lines are
other ones. So the text and its unified form have equal listings exactly if nothing
that would be listed stands behind such a carriage return: no character at all where
end tokens are listed, and no token where they are not.
-/

namespace MonkeyLexis

open Alphabet

namespace Text

variable {line e rest later s t : Text} {c : Char}

/-- A carriage return of the text with `rest` behind it, which does not begin with a line feed. -/
def LoneReturn (t rest : Text) : Prop := ∃ s, t = s ++ '\r' :: rest ∧ rest.head? ≠ some '\n'

theorem not_loneReturn_of_not_mem (h : '\r' ∉ t) : ¬ LoneReturn t rest := by
  rintro ⟨s, rfl, _⟩
  exact h (List.mem_append_right s List.mem_cons_self)

theorem loneReturn_cons_iff :
    LoneReturn (c :: t) rest ↔
      (c = '\r' ∧ rest = t ∧ t.head? ≠ some '\n') ∨ LoneReturn t rest := by
  constructor
  · rintro ⟨_ | ⟨d, s⟩, ht, hrest⟩
    · obtain ⟨rfl, rfl⟩ := List.cons.inj ht
      exact .inl ⟨rfl, rfl, hrest⟩
    · obtain ⟨rfl, rfl⟩ := List.cons.inj ht
      exact .inr ⟨s, rfl, hrest⟩
  · rintro (⟨rfl, rfl, hrest⟩ | ⟨s, rfl, hrest⟩)
    · exact ⟨[], rfl, hrest⟩
    · exact ⟨c :: s, rfl, hrest⟩

def behindReturns : Text → List Text
  | [] => []
  | c :: t => if c = '\r' ∧ t.head? ≠ some '\n' then t :: behindReturns t else behindReturns t

theorem mem_behindReturns_iff : rest ∈ behindReturns t ↔ LoneReturn t rest := by
  induction t with
  | nil => exact iff_of_false List.not_mem_nil (not_loneReturn_of_not_mem List.not_mem_nil)
  | cons c t ih =>
    rw [loneReturn_cons_iff, ← ih, behindReturns]
    by_cases hc : c = '\r' ∧ t.head? ≠ some '\n'
    · rw [if_pos hc, List.mem_cons]
      simp [hc]
    · rw [if_neg hc]
      constructor
      · exact .inr
      · rintro (⟨hr, _, hhead⟩ | h)
        · exact absurd ⟨hr, hhead⟩ hc
        · exact h

instance (t : Text) (p : Text → Prop) [DecidablePred p] :
    Decidable (∀ rest, LoneReturn t rest → p rest) :=
  decidable_of_iff (∀ rest ∈ behindReturns t, p rest) (by simp only [mem_behindReturns_iff])

theorem loneReturn_append_iff (h : '\r' ∉ s) : LoneReturn (s ++ t) rest ↔ LoneReturn t rest := by
  induction s with
  | nil => rfl
  | cons d s ih =>
    obtain ⟨hd, hs⟩ := not_or.mp (mt List.mem_cons.mpr h)
    rw [List.cons_append, loneReturn_cons_iff, ih hs]
    simp [Ne.symm hd]

theorem LoneReturn.mem_of_mem (h : LoneReturn t rest) (hc : c ∈ rest) : c ∈ t := by
  obtain ⟨s, rfl, _⟩ := h
  simp [hc]

/-- The ends of a line in a text whether or not its line ends are unified. -/
def IsFeed (e : Text) : Prop := e = ['\n'] ∨ e = ['\r', '\n']

/-- A text is a last line, or a line that a line feed or a lone carriage return ends in front of a
shorter text. -/
@[elab_as_elim] theorem lineEndInduction {motive : Text → Prop}
    (last : ∀ line, '\r' ∉ line → '\n' ∉ line → motive line)
    (feed : ∀ line e rest, '\r' ∉ line → '\n' ∉ line → IsFeed e → motive rest →
      motive (line ++ (e ++ rest)))
    (lone : ∀ line rest, '\r' ∉ line → '\n' ∉ line → rest.head? ≠ some '\n' → motive rest →
      motive (line ++ '\r' :: rest)) (t : Text) : motive t := by
  rcases unifyLineEnds_cases t with ⟨hr, hn⟩ | ⟨line, e, rest, ht, he, hr, hn, _⟩
  · exact last t hr hn
  · have hlt : rest.length < t.length := by
      have hpos : 0 < e.length := List.length_pos_iff.mpr (isBlankText_of_isLineEnd he).2
      rw [ht, List.length_append, List.length_append]
      omega
    have hrest := lineEndInduction last feed lone rest
    rw [ht]
    rcases he with rfl | rfl | rfl
    · exact feed line ['\r', '\n'] rest hr hn (.inr rfl) hrest
    · by_cases hhead : rest.head? = some '\n'
      · obtain ⟨later, rfl⟩ := List.head?_eq_some_iff.mp hhead
        have hlt' : later.length < t.length := Nat.lt_of_succ_lt hlt
        exact feed line ['\r', '\n'] later hr hn (.inr rfl)
          (lineEndInduction last feed lone later)
      · exact lone line rest hr hn hhead hrest
    · exact feed line ['\n'] rest hr hn (.inl rfl) hrest
termination_by t.length

theorem unifyLineEnds_line_append (h : '\r' ∉ line) (t : Text) :
    unifyLineEnds (line ++ t) = line ++ unifyLineEnds t := by
  rw [unifyLineEnds_append, unifyLineEnds_of_not_mem h]
  intro hlast
  exact absurd (List.mem_of_getLast? hlast) h

theorem unifyLineEnds_feed (h : '\r' ∉ line) (he : IsFeed e) (rest : Text) :
    unifyLineEnds (line ++ (e ++ rest)) = line ++ '\n' :: unifyLineEnds rest := by
  rw [unifyLineEnds_line_append h]
  rcases he with rfl | rfl
  · exact congrArg (line ++ ·) (unifyLineEnds_cons fun h => absurd h (by decide))
  · rfl

theorem unifyLineEnds_lone (h : '\r' ∉ line) (hrest : rest.head? ≠ some '\n') :
    unifyLineEnds (line ++ '\r' :: rest) = line ++ '\n' :: unifyLineEnds rest := by
  rw [unifyLineEnds_line_append h, unifyLineEnds_cons fun _ => hrest]
  rfl

theorem loneReturn_feed_iff (h : '\r' ∉ line) (he : IsFeed e) :
    LoneReturn (line ++ (e ++ later)) rest ↔ LoneReturn later rest := by
  rw [loneReturn_append_iff h]
  rcases he with rfl | rfl
  · exact loneReturn_append_iff (by decide)
  · simp [loneReturn_cons_iff]

theorem loneReturn_lone_iff (h : '\r' ∉ line) (hlater : later.head? ≠ some '\n') :
    LoneReturn (line ++ '\r' :: later) rest ↔ rest = later ∨ LoneReturn later rest := by
  rw [loneReturn_append_iff h, loneReturn_cons_iff]
  simp [hlater]

theorem lineContent_append_return (h : '\r' ∉ line) : lineContent (line ++ ['\r']) = line := by
  unfold lineContent
  rw [trimEnd_append_singleton]
  exact lineContent_of_not_mem h

theorem lines_feed (hr : '\r' ∉ line) (hn : '\n' ∉ line) (he : IsFeed e) (rest : Text) :
    lines (line ++ (e ++ rest)) = line :: lines rest := by
  rcases he with rfl | rfl
  · rw [List.singleton_append, lines_append_cons hn, lineContent_of_not_mem hr]
  · have hline : '\n' ∉ line ++ ['\r'] := by simp [hn]
    have hlines := lines_append_cons hline rest
    rw [lineContent_append_return hr] at hlines
    simpa using hlines

theorem lines_lone (hn : '\n' ∉ line) (rest : Text) :
    lines (line ++ '\r' :: rest) =
      lineContent (line ++ '\r' :: firstLine rest) :: lines (afterLine rest) := by
  have hreturn : '\n' ∉ line ++ ['\r'] := by simp [hn]
  have hfirst := firstLine_append_of_not_mem hreturn rest
  have hafter := afterLine_append_of_not_mem hreturn rest
  rw [List.append_assoc, List.append_assoc] at hfirst
  rw [List.append_assoc] at hafter
  rw [lines_of_ne_nil (by simp)]
  exact congrArg₂ (fun first later => lineContent first :: lines later) hfirst hafter

theorem lines_final_return (hr : '\r' ∉ line) (hn : '\n' ∉ line) :
    lines (line ++ ['\r']) = [line] := by
  rw [lines_lone hn]
  exact congrArg₂ List.cons (lineContent_append_return hr) lines_nil

theorem length_lines_lone (hn : '\n' ∉ line) (hrest : rest ≠ []) :
    (lines (line ++ '\r' :: rest)).length = (lines rest).length := by
  rw [lines_lone hn, lines_of_ne_nil hrest]
  rfl

theorem length_lines_le (t : Text) : (lines t).length ≤ (lines (unifyLineEnds t)).length := by
  induction t using lineEndInduction with
  | last line hr hn => rw [unifyLineEnds_of_not_mem hr]
  | feed line e rest hr hn he ih =>
    rw [unifyLineEnds_feed hr he, lines_feed hr hn he, lines_append_cons hn]
    exact Nat.succ_le_succ ih
  | lone line rest hr hn hrest ih =>
    rw [unifyLineEnds_lone hr hrest, lines_append_cons hn]
    by_cases hne : rest = []
    · rw [hne, lines_final_return hr hn]
      exact Nat.succ_le_succ (Nat.zero_le _)
    · rw [length_lines_lone hn hne]
      exact Nat.le_succ_of_le ih

/-- Unifying line ends makes more lines, unless every lone carriage return is the last character. -/
theorem lines_unifyLineEnds_cases (t : Text) :
    (lines (unifyLineEnds t) = lines t ∧ ∀ rest, LoneReturn t rest → rest = []) ∨
      ((lines t).length < (lines (unifyLineEnds t)).length ∧ ∃ rest, LoneReturn t rest ∧ rest ≠ []) := by
  induction t using lineEndInduction with
  | last line hr hn =>
    left
    exact ⟨by rw [unifyLineEnds_of_not_mem hr], fun rest h => absurd h (not_loneReturn_of_not_mem hr)⟩
  | feed line e rest hr hn he ih =>
    simp only [unifyLineEnds_feed hr he, lines_feed hr hn he, lines_append_cons hn,
      lineContent_of_not_mem hr, loneReturn_feed_iff hr he]
    simpa using ih
  | lone line rest hr hn hrest ih =>
    simp only [unifyLineEnds_lone hr hrest, lines_append_cons hn, lineContent_of_not_mem hr,
      loneReturn_lone_iff hr hrest]
    by_cases hne : rest = []
    · left
      rw [hne, lines_final_return hr hn]
      refine ⟨congrArg (line :: ·) lines_nil, ?_⟩
      rintro later (h | h)
      · exact h
      · exact absurd h (not_loneReturn_of_not_mem List.not_mem_nil)
    · right
      refine ⟨?_, rest, .inl rfl, hne⟩
      rw [length_lines_lone hn hne]
      exact Nat.lt_succ_of_le (length_lines_le rest)

end Text

theorem lexemes_lineContent (line : Text) : lexemes (Text.lineContent line) = lexemes line := by
  obtain ⟨returns, hline, hreturns⟩ := Text.exists_lineContent_append line
  have hblank : IsBlankText returns := isBlankText_of_returns hreturns
  nth_rewrite 2 [hline]
  rw [lexemes_append_of_blank_head hblank.head, lexemes_eq_nil_iff.mpr hblank, List.append_nil]

theorem lexemes_append_return (s t : Text) : lexemes (s ++ '\r' :: t) = lexemes s ++ lexemes t := by
  have hblank : IsBlankText ['\r'] := by decide
  have hhead : ∀ c ∈ ('\r' :: t).head?, isBlank c := by
    intro c hc
    cases hc
    rfl
  rw [lexemes_append_of_blank_head hhead]
  exact congrArg (lexemes s ++ ·) (lexemes_append_of_isBlankText hblank t)

theorem isBlankText_append_iff {s t : Text} :
    IsBlankText (s ++ t) ↔ IsBlankText s ∧ IsBlankText t :=
  List.forall_mem_append

theorem blank_behind_return_of_isBlankText {t : Text} (h : IsBlankText t) :
    ∀ rest, Text.LoneReturn t rest → IsBlankText rest :=
  fun _ hrest c hc => h c (hrest.mem_of_mem hc)

namespace Listing

variable {a b : Nat} {line rest t : Text}

theorem lineTokens_false (line : Text) : lineTokens false line = lexemes line := rfl

theorem map_mk_eq_iff {ts : List Token} :
    ts.map (Entry.mk a) = ts.map (Entry.mk b) ↔ ts = [] ∨ a = b := by
  cases ts with
  | nil => simp
  | cons token ts =>
    constructor
    · intro h
      exact .inr (Entry.mk.inj (List.cons.inj h).1).1
    · rintro (h | rfl)
      · cases h
      · rfl

theorem map_mk_append_eq_iff {ts : List Token} {xs ys : List Entry} :
    ts.map (Entry.mk a) ++ xs = ts.map (Entry.mk b) ++ ys ↔ (ts = [] ∨ a = b) ∧ xs = ys := by
  constructor
  · intro h
    obtain ⟨hts, hxs⟩ := List.append_inj h (by simp)
    exact ⟨map_mk_eq_iff.mp hts, hxs⟩
  · rintro ⟨hts, rfl⟩
    rw [map_mk_eq_iff.mpr hts]

/-- Without end tokens, what stands behind a lone carriage return is listed as if it began a line of
the same number. -/
theorem entriesFrom_lone (hn : '\n' ∉ line) (rest : Text) :
    entriesFrom false a (Text.lines (line ++ '\r' :: rest)) =
      (lexemes line).map (Entry.mk a) ++ entriesFrom false a (Text.lines rest) := by
  have hfirst : lineTokens false (Text.lineContent (line ++ '\r' :: Text.firstLine rest)) =
      lexemes line ++ lexemes (Text.firstLine rest) :=
    (lexemes_lineContent _).trans (lexemes_append_return line _)
  rw [Text.lines_lone hn, entriesFrom, hfirst]
  by_cases hne : rest = []
  · rw [hne]
    simp [Text.firstLine, Text.afterLine, entriesFrom]
  · have hlater : lineTokens false (Text.lineContent (Text.firstLine rest)) =
        lexemes (Text.firstLine rest) := lexemes_lineContent _
    rw [Text.lines_of_ne_nil hne, entriesFrom, hlater, List.map_append, List.append_assoc]

theorem entriesFrom_last (hr : '\r' ∉ line) (hn : '\n' ∉ line) (first : Nat) :
    entriesFrom false first (Text.lines line) = (lexemes line).map (Entry.mk first) := by
  by_cases hne : line = []
  · rw [hne]
    simp [entriesFrom]
  · rw [Text.lines_of_not_mem hn hne, Text.lineContent_of_not_mem hr]
    exact List.append_nil _

/-- The entries without end tokens agree, also with the numbers of one side put forward, only if no
token makes a difference. -/
theorem entriesFrom_unifyLineEnds_iff (hab : a ≤ b) (t : Text) :
    entriesFrom false a (Text.lines t) = entriesFrom false b (Text.lines (Text.unifyLineEnds t)) ↔
      IsBlankText t ∨ (a = b ∧ ∀ rest, Text.LoneReturn t rest → IsBlankText rest) := by
  -- the unified text has more lines, so that its numbers are never behind those of the text
  induction t using Text.lineEndInduction generalizing a b with
  | last line hr hn =>
    have hnone : ∀ rest, Text.LoneReturn line rest → IsBlankText rest :=
      fun rest h => absurd h (Text.not_loneReturn_of_not_mem hr)
    rw [Text.unifyLineEnds_of_not_mem hr, entriesFrom_last hr hn, entriesFrom_last hr hn,
      map_mk_eq_iff, lexemes_eq_nil_iff, and_iff_left hnone]
  | feed line e rest hr hn he ih =>
    have hblank : IsBlankText e := by
      rcases he with rfl | rfl <;> decide
    have hsuffix := blank_behind_return_of_isBlankText (t := rest)
    simp only [Text.unifyLineEnds_feed hr he, Text.lines_feed hr hn he, Text.lines_append_cons hn,
      Text.lineContent_of_not_mem hr, Text.loneReturn_feed_iff hr he, isBlankText_append_iff,
      entriesFrom, map_mk_append_eq_iff, ih (Nat.succ_le_succ hab), Nat.succ_inj]
    rw [lineTokens_false, lexemes_eq_nil_iff]
    tauto
  | lone line rest hr hn hrest ih =>
    -- what follows has another number from here on, and can only be equal if nothing is listed
    have hreturn : IsBlankText ['\r'] := by decide
    have hlt : a ≠ b + 1 := (Nat.lt_succ_of_le hab).ne
    have hsuffix := blank_behind_return_of_isBlankText (t := rest)
    have hcond : (∀ later, Text.LoneReturn (line ++ '\r' :: rest) later → IsBlankText later) ↔
        IsBlankText rest := by
      simp only [Text.loneReturn_lone_iff hr hrest]
      exact ⟨fun h => h rest (.inl rfl), fun h later hlater => hlater.elim (· ▸ h) (hsuffix h later)⟩
    have hwhole : IsBlankText (line ++ '\r' :: rest) ↔ IsBlankText line ∧ IsBlankText rest := by
      rw [← List.singleton_append, isBlankText_append_iff, isBlankText_append_iff, and_iff_right hreturn]
    rw [hcond, hwhole, Text.unifyLineEnds_lone hr hrest, Text.lines_append_cons hn,
      Text.lineContent_of_not_mem hr, entriesFrom_lone hn, entriesFrom,
      lineTokens_false, map_mk_append_eq_iff, lexemes_eq_nil_iff,
      ih (Nat.le_succ_of_le hab)]
    tauto

theorem entries_true_unifyLineEnds_iff (t : Text) :
    entries true (Text.lines t) = entries true (Text.lines (Text.unifyLineEnds t)) ↔
      ∀ rest, Text.LoneReturn t rest → rest = [] := by
  rcases Text.lines_unifyLineEnds_cases t with ⟨hlines, hnone⟩ | ⟨hlt, rest, hrest, hne⟩
  · rw [hlines]
    exact iff_of_true rfl hnone
  · refine iff_of_false ?_ fun h => hne (h rest hrest)
    intro h
    have hlength := congrArg List.length (map_tokens_eq_of_entries_eq h)
    rw [List.length_map, List.length_map] at hlength
    exact hlt.ne hlength

/-- The listings of a text and of the text with unified line ends are equal exactly if nothing that
is listed stands behind a lone carriage return. -/
theorem entries_unifyLineEnds_iff (showEnd : Bool) (t : Text) :
    entries showEnd (Text.lines t) = entries showEnd (Text.lines (Text.unifyLineEnds t)) ↔
      ∀ rest, Text.LoneReturn t rest → if showEnd then rest = [] else IsBlankText rest := by
  cases showEnd with
  | true => exact entries_true_unifyLineEnds_iff t
  | false =>
    refine (entriesFrom_unifyLineEnds_iff le_rfl t).trans ⟨?_, fun h => .inr ⟨rfl, h⟩⟩
    rintro (h | ⟨_, h⟩)
    · exact blank_behind_return_of_isBlankText h
    · exact h

end Listing
end MonkeyLexis
