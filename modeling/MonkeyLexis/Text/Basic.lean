/-!
# Texts

A text is a list of Unicode characters, so that a position in it counts
characters and every rule about it is a rule about lists. Literal strings stand
for the texts that they spell. Surrogates are no characters: a text with a lone one
in it, which has no bytes in UTF-8 either, is left out.
-/

namespace MonkeyLexis

/-- A finite sequence of Unicode characters. -/
abbrev Text := List Char

instance : Coe String Text := ⟨String.toList⟩

namespace Text

/-- The text without the longest run of `p`-characters at its end. -/
def trimEnd (p : Char → Bool) (t : Text) : Text := (t.reverse.dropWhile p).reverse

@[simp] theorem trimEnd_nil (p : Char → Bool) : trimEnd p [] = [] := rfl

theorem trimEnd_append_singleton (p : Char → Bool) (t : Text) (c : Char) :
    trimEnd p (t ++ [c]) = if p c then trimEnd p t else t ++ [c] := by
  cases h : p c <;> simp [trimEnd, h]

def joined (separator : Text) (parts : List Text) : Text := separator.intercalate parts

end Text
end MonkeyLexis
