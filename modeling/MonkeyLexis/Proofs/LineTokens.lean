import MonkeyLexis.Listing
import MonkeyLexis.Proofs.Concatenation
import MonkeyLexis.Proofs.Layout
import MonkeyLexis.Proofs.Lines

/-!
# Tokens line by line

No token reaches across a blank. A text that is cut at blanks into pieces therefore
has the tokens of its pieces, in order, and a listing of the pieces names them, with
as many illegal ones as the text has. Lines are such pieces, before and after line
ends are unified.
-/

namespace MonkeyLexis

open Alphabet

theorem not_glued_of_blank_head {s t : Text} (h : ∀ c ∈ t.head?, isBlank c) : ¬ Glued s t := by
  rintro ⟨_, k, _, c, hc, hk⟩
  exact Kind.not_continuedBy_of_isBlank (h c hc) k.kind hk

/-- What begins with a blank or is empty is scanned on its own. -/
theorem lexemes_append_of_blank_head {t : Text} (h : ∀ c ∈ t.head?, isBlank c) (s : Text) :
    lexemes (s ++ t) = lexemes s ++ lexemes t :=
  (lexemes_append_iff s t).mpr (not_glued_of_blank_head h)

theorem IsBlankText.head {w : Text} (h : IsBlankText w) : ∀ c ∈ w.head?, isBlank c :=
  fun c hc => h c (List.mem_of_head? hc)

def Layout.Parted {α : Type} (d : Layout α) : Prop := ∀ p ∈ d.items.tail, p.1 ≠ []

instance {α : Type} (d : Layout α) : Decidable d.Parted := inferInstanceAs (Decidable (∀ p ∈ _, _))

/-- The pieces, in order and with blanks between any two, make up the text. -/
def IsCutOf (t : Text) (pieces : List Text) : Prop :=
  ∃ d : Layout Text, d.Blank ∧ d.Parted ∧ d.contents = pieces ∧ d.text id = t

theorem blank_head_text {items : List (Text × Text)} {e : Text}
    (hb : (Layout.mk items e).Blank) (hp : ∀ p ∈ items, p.1 ≠ []) :
    ∀ c ∈ ((Layout.mk items e).text id).head?, isBlank c := by
  cases items with
  | nil => exact (Layout.blank_nil_iff.mp hb).head
  | cons p items =>
    obtain ⟨w, piece⟩ := p
    obtain ⟨hw, _⟩ := Layout.blank_cons_iff.mp hb
    have hne : w ≠ [] := hp _ List.mem_cons_self
    rw [Layout.text_cons, List.head?_append_of_ne_nil _ hne]
    exact hw.head

theorem IsCutOf.flatMap_lexemes {t : Text} {pieces : List Text} (h : IsCutOf t pieces) :
    pieces.flatMap lexemes = lexemes t := by
  obtain ⟨⟨items, e⟩, hb, hp, rfl, rfl⟩ := h
  induction items with
  | nil => exact (lexemes_eq_nil_iff.mpr (Layout.blank_nil_iff.mp hb)).symm
  | cons p items ih =>
    obtain ⟨w, piece⟩ := p
    obtain ⟨hw, hb⟩ := Layout.blank_cons_iff.mp hb
    have htail : (Layout.mk items e).Parted := fun q hq => hp q (List.mem_of_mem_tail hq)
    rw [Layout.text_cons, Layout.contents_cons, List.flatMap_cons, ih hb htail,
      lexemes_append_of_isBlankText hw, lexemes_append_of_blank_head (blank_head_text hb hp)]
    rfl

theorem isCutOf_nil {w : Text} (hw : IsBlankText w) : IsCutOf w [] :=
  ⟨⟨[], w⟩, Layout.blank_nil_iff.mpr hw, by simp [Layout.Parted], rfl, rfl⟩

theorem isBlankText_of_returns {returns : Text} (h : ∀ c ∈ returns, c = '\r') :
    IsBlankText returns := by
  intro c hc
  rw [h c hc]
  decide

theorem isCutOf_singleton {w : Text} (hw : IsBlankText w) (piece : Text) :
    IsCutOf (piece ++ w) [piece] :=
  ⟨⟨[([], piece)], w⟩, by simpa [Layout.Blank, IsBlankText] using hw, by simp [Layout.Parted], rfl,
    rfl⟩

theorem IsCutOf.cons {w rest : Text} {pieces : List Text} (h : IsCutOf rest pieces)
    (hw : IsBlankText w) (hne : w ≠ []) (piece : Text) :
    IsCutOf (piece ++ (w ++ rest)) (piece :: pieces) := by
  obtain ⟨⟨items, e⟩, hb, hp, rfl, rfl⟩ := h
  cases items with
  | nil =>
    have he : IsBlankText e := Layout.blank_nil_iff.mp hb
    exact isCutOf_singleton (List.forall_mem_append.mpr ⟨hw, he⟩) piece
  | cons p items =>
    -- the blanks join the gap before the next piece
    obtain ⟨v, second⟩ := p
    obtain ⟨hv, hb⟩ := Layout.blank_cons_iff.mp hb
    refine ⟨⟨([], piece) :: (w ++ v, second) :: items, e⟩, ?_, ?_, rfl, ?_⟩
    · rw [Layout.blank_cons_iff, Layout.blank_cons_iff]
      exact ⟨by simp [IsBlankText], List.forall_mem_append.mpr ⟨hw, hv⟩, hb⟩
    · rintro q hq
      rcases List.mem_cons.mp hq with rfl | hq
      · exact List.append_ne_nil_of_left_ne_nil hne v
      · exact hp q hq
    · simp

theorem isCutOf_lines (t : Text) : IsCutOf t (Text.lines t) := by
  induction t using Text.lineInduction with
  | last line h =>
    by_cases hne : line = []
    · rw [hne, Text.lines_nil]
      exact isCutOf_nil (by simp [IsBlankText])
    · obtain ⟨returns, hline, hreturns⟩ := Text.exists_lineContent_append line
      rw [Text.lines_of_not_mem h hne]
      nth_rewrite 1 [hline]
      exact isCutOf_singleton (isBlankText_of_returns hreturns) _
  | line line rest h ih =>
    obtain ⟨returns, hline, hreturns⟩ := Text.exists_lineContent_append line
    have hend : IsBlankText (returns ++ ['\n']) :=
      List.forall_mem_append.mpr ⟨isBlankText_of_returns hreturns, List.forall_mem_singleton.mpr rfl⟩
    have hcut := ih.cons hend (by simp) (Text.lineContent line)
    rw [Text.lines_append_cons h]
    nth_rewrite 1 [hline]
    simpa using hcut

theorem isBlankText_of_isLineEnd {e : Text} (h : Text.IsLineEnd e) : IsBlankText e ∧ e ≠ [] := by
  rcases h with rfl | rfl | rfl <;> decide

/-- The lines of a text with unified line ends are pieces of the text as it was. -/
theorem isCutOf_unified_lines (t : Text) : IsCutOf t (Text.lines (Text.unifyLineEnds t)) := by
  rcases Text.unifyLineEnds_cases t with ⟨hr, _⟩ | ⟨line, e, rest, ht, he, hr, hn, hunify⟩
  · rw [Text.unifyLineEnds_of_not_mem hr]
    exact isCutOf_lines t
  · obtain ⟨hblank, hne⟩ := isBlankText_of_isLineEnd he
    have hlt : rest.length < t.length := by
      have hpos : 0 < e.length := List.length_pos_iff.mpr hne
      rw [ht, List.length_append, List.length_append]
      omega
    rw [hunify, Text.lines_append_cons hn, Text.lineContent_of_not_mem hr, ht]
    exact (isCutOf_unified_lines rest).cons hblank hne line
termination_by t.length

/-- The token does not merely tell that a line ends. -/
def Token.isProper (t : Token) : Bool := t.kind != .endOfInput

theorem filter_isProper_lexemes (t : Text) : (lexemes t).filter Token.isProper = lexemes t := by
  rw [List.filter_eq_self]
  intro token h
  simpa [Token.isProper] using kind_ne_endOfInput_of_mem_lexemes h

namespace Listing

theorem filter_isProper_lineTokens (showEnd : Bool) (line : Text) :
    (lineTokens showEnd line).filter Token.isProper = lexemes line := by
  cases showEnd with
  | false => exact filter_isProper_lexemes line
  | true =>
    rw [lineTokens, if_pos rfl, tokens, List.filter_append, filter_isProper_lexemes]
    exact List.append_nil _

theorem map_token_entriesFrom (showEnd : Bool) (first : Nat) (pieces : List Text) :
    (entriesFrom showEnd first pieces).map Entry.token = pieces.flatMap (lineTokens showEnd) := by
  induction pieces generalizing first with
  | nil => rfl
  | cons piece pieces ih =>
    rw [entriesFrom, List.map_append, ih, List.map_map, List.flatMap_cons]
    exact congrArg (· ++ _) (List.map_id _)

theorem filter_isProper_entries (showEnd : Bool) (pieces : List Text) :
    ((entries showEnd pieces).map Entry.token).filter Token.isProper = pieces.flatMap lexemes := by
  rw [entries, map_token_entriesFrom, List.filter_flatMap]
  exact List.flatMap_congr fun piece _ => filter_isProper_lineTokens showEnd piece

theorem illegalCount_eq (es : List Entry) :
    illegalCount es =
      ((es.map Entry.token).filter Token.isProper).countP (·.kind == .illegal) := by
  rw [List.countP_filter, List.countP_map, illegalCount]
  refine List.countP_congr ?_
  intro e _
  simp only [Function.comp_apply, Token.isProper, Bool.and_eq_true, beq_iff_eq, bne_iff_ne]
  constructor
  · intro h
    exact ⟨h, by simp [h]⟩
  · exact And.left

end Listing

theorem countP_tokens (t : Text) :
    (tokens t).countP (·.kind == .illegal) = (lexemes t).countP (·.kind == .illegal) := by
  rw [tokens, List.countP_append]
  rfl

/-- However a text is cut at blanks, its pieces have its tokens one after another. So have its
lines, with their line ends unified or not, and a listing names these tokens and counts all that
are illegal. -/
theorem listing_of_cut (t : Text) :
    IsCutOf t (Text.lines t) ∧ IsCutOf t (Text.lines (Text.unifyLineEnds t)) ∧
      ∀ pieces, IsCutOf t pieces →
        pieces.flatMap (fun piece => (tokens piece).dropLast) = (tokens t).dropLast ∧
        ∀ showEnd,
          ((Listing.entries showEnd pieces).map Entry.token).filter Token.isProper =
            (tokens t).dropLast ∧
          Listing.illegalCount (Listing.entries showEnd pieces) =
            (tokens t).countP (·.kind == .illegal) := by
  refine ⟨isCutOf_lines t, isCutOf_unified_lines t, ?_⟩
  intro pieces h
  have hlexemes := h.flatMap_lexemes
  simp only [tokens, List.dropLast_concat]
  refine ⟨hlexemes, fun showEnd => ⟨?_, ?_⟩⟩
  · rw [Listing.filter_isProper_entries, hlexemes]
  · rw [Listing.illegalCount_eq, Listing.filter_isProper_entries, hlexemes]
    exact (countP_tokens t).symm

/-- Neither a carriage return alone nor an equals sign on either side of a line end matters. -/
theorem listing_of_narrow_cut :
    let t : Text := "a==\r\n\r=b@\n"
    let pieces : List Text := ["a==", [], "=b@"]
    let found : List Token := [⟨.identifier, "a"⟩, ⟨.operator .equal, "=="⟩,
      ⟨.operator .assign, "="⟩, ⟨.identifier, "b"⟩, ⟨.illegal, "@"⟩]
    IsCutOf t pieces ∧ tokens t = found ++ [⟨.endOfInput, []⟩] ∧
      pieces.flatMap (fun piece => (tokens piece).dropLast) = found ∧
      ((Listing.entries true pieces).map Entry.token).filter Token.isProper = found ∧
      Listing.illegalCount (Listing.entries true pieces) = 1 := by
  intro t pieces found
  have hcut : IsCutOf t pieces :=
    ⟨⟨[([], "a=="), ("\r\n", []), ("\r", "=b@")], "\n"⟩, by decide, by decide, rfl, rfl⟩
  have hfound : tokens t = found ++ [⟨.endOfInput, []⟩] := by decide +kernel
  obtain ⟨hpieces, hlisting⟩ := (listing_of_cut t).2.2 pieces hcut
  obtain ⟨hlisted, hcount⟩ := hlisting true
  rw [hfound, List.dropLast_concat] at hpieces hlisted
  rw [hfound] at hcount
  exact ⟨hcut, hfound, hpieces, hlisted, hcount⟩

end MonkeyLexis
