import MonkeyLexis.Scan.Leading

/-!
# The tokens of a text

Blanks are skipped, the leading token is taken, and the rest of the text is read
in the same way. `lexemes` stops where only blanks are left; `tokens` marks that
place with the end token.
-/

namespace MonkeyLexis

open Alphabet

/-- What is left of a text after the blanks at its start. -/
def Text.skipBlanks (t : Text) : Text := t.dropWhile isBlank

theorem Text.length_skipBlanks_le (t : Text) : t.skipBlanks.length ≤ t.length :=
  (List.dropWhile_suffix isBlank).length_le

/-- The tokens of a text without the end token. -/
def lexemes (t : Text) : List Token :=
  match _h : t.skipBlanks with
  | [] => []
  | c :: rest =>
    Token.leading c rest :: lexemes ((c :: rest).drop (Token.leading c rest).literal.length)
termination_by t.length
decreasing_by
  have hle := t.length_skipBlanks_le
  have hpos := List.length_pos_iff.mpr (Token.literal_leading_ne_nil c rest)
  rw [_h] at hle
  simp only [List.length_drop, List.length_cons] at *
  omega

def tokens (t : Text) : List Token := lexemes t ++ [Token.endOfInput]

theorem lexemes_of_skipBlanks_eq_nil {t : Text} (h : t.skipBlanks = []) : lexemes t = [] := by
  rw [lexemes]
  split
  · rfl
  · next hc => simp [h] at hc

theorem lexemes_of_skipBlanks_eq_cons {t : Text} {c : Char} {rest : Text}
    (h : t.skipBlanks = c :: rest) :
    lexemes t =
      Token.leading c rest :: lexemes ((c :: rest).drop (Token.leading c rest).literal.length) := by
  rw [lexemes]
  split
  · next hn => simp [h] at hn
  · next hc =>
    rw [h] at hc
    cases hc
    rfl

theorem kind_ne_endOfInput_of_mem_lexemes {t : Text} {token : Token} (h : token ∈ lexemes t) :
    token.kind ≠ .endOfInput := by
  fun_induction lexemes t with
  | case1 => simp at h
  | case2 t c rest _ ih =>
    rcases List.mem_cons.mp h with rfl | h
    · exact Token.kind_leading_ne_endOfInput c rest
    · exact ih h

end MonkeyLexis
