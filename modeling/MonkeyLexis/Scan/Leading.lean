import MonkeyLexis.Text.Alphabet
import MonkeyLexis.Token.Basic

/-!
# The token at the start of a text

The first character decides the class of a token: a letter begins a word and a
digit a number, each as long as the text allows; otherwise the longest operator
is taken, or the character alone as illegal. The literal is always a nonempty
initial piece of the text.
-/

namespace MonkeyLexis
namespace Token

open Alphabet

/-- The token that begins with `c`, which is no blank, when `rest` follows it. -/
def leading (c : Char) (rest : Text) : Token :=
  if isLetter c then word (c :: rest.takeWhile isWordChar)
  else if isDigit c then ⟨.integer, c :: rest.takeWhile isDigit⟩
  else
    match Operator.leading? (c :: rest) with
    | some o => ⟨.operator o, o.spelling⟩
    | none => ⟨.illegal, [c]⟩

theorem leading_of_isLetter {c : Char} (h : isLetter c) (rest : Text) :
    leading c rest = word (c :: rest.takeWhile isWordChar) := by
  simp [leading, h]

theorem leading_of_isDigit {c : Char} (h : isDigit c) (rest : Text) :
    leading c rest = ⟨.integer, c :: rest.takeWhile isDigit⟩ := by
  simp [leading, h, isLetter_eq_false_of_isDigit h]

theorem literal_leading_prefix (c : Char) (rest : Text) :
    (leading c rest).literal <+: c :: rest := by
  unfold leading
  split
  · exact (List.prefix_cons_inj c).mpr (List.takeWhile_prefix _)
  · split
    · exact (List.prefix_cons_inj c).mpr (List.takeWhile_prefix _)
    · split
      · next o h =>
        show o.spelling <+: _
        rw [Operator.spelling_of_leading? h]
        exact List.take_prefix _ _
      · exact ⟨rest, rfl⟩

theorem literal_leading_ne_nil (c : Char) (rest : Text) : (leading c rest).literal ≠ [] := by
  unfold leading
  split
  · exact List.cons_ne_nil _ _
  · split
    · exact List.cons_ne_nil _ _
    · split
      · exact Operator.spelling_ne_nil _
      · exact List.cons_ne_nil _ _

theorem kind_ofWord_ne_endOfInput (w : Text) : Kind.ofWord w ≠ .endOfInput := by
  unfold Kind.ofWord
  cases Keyword.ofWord? w <;> simp

theorem kind_leading_ne_endOfInput (c : Char) (rest : Text) :
    (leading c rest).kind ≠ .endOfInput := by
  unfold leading
  split
  · exact kind_ofWord_ne_endOfInput _
  · split
    · simp
    · split <;> simp

end Token
end MonkeyLexis
