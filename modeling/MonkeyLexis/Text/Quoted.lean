import MonkeyLexis.Text.Numeral
import MonkeyLexis.Text.Printable

/-!
# Quoted texts

A text is shown between two equal quotes. The quote is an apostrophe, unless the
text holds an apostrophe and no double quote. Inside, the quote and the backslash
get a backslash; tab, line feed and carriage return have their own escapes; any
other character that is not printable is written by its code point with two, four
or eight hexadecimal digits, as few as it needs.
-/

namespace MonkeyLexis
namespace Quoted

/-- The quote that surrounds a text. -/
def quote (t : Text) : Char :=
  if t.contains '\x27' && !t.contains '"' then '"' else '\x27'

theorem quote_eq (t : Text) : quote t = '\x27' ∨ quote t = '"' := by
  unfold quote
  split <;> simp

def escapedCode (n : Nat) : Text :=
  if n < 0x100 then '\\' :: 'x' :: Numeral.hex 2 n
  else if n < 0x10000 then '\\' :: 'u' :: Numeral.hex 4 n
  else '\\' :: 'U' :: Numeral.hex 8 n

/-- How a character is written between quotes `q`. -/
def escaped (q c : Char) : Text :=
  if c = q ∨ c = '\\' then ['\\', c]
  else if c = '\t' then ['\\', 't']
  else if c = '\n' then ['\\', 'n']
  else if c = '\r' then ['\\', 'r']
  else if Printable.isPrintable c then [c]
  else escapedCode c.toNat

def encode (t : Text) : Text :=
  quote t :: (t.flatMap (escaped (quote t)) ++ [quote t])

end Quoted
end MonkeyLexis
