import MonkeyLexis.Text.Basic

/-!
# Numerals

Decimal numerals without leading zeros, and hexadecimal numerals of a fixed
width, padded with zeros.
-/

namespace MonkeyLexis
namespace Numeral

def decimal (n : Nat) : Text := Nat.toDigits 10 n

/-- The decimal numeral of an integer, with a sign only if it is negative. -/
def signed : Int → Text
  | .ofNat n => decimal n
  | .negSucc n => '-' :: decimal (n + 1)

/-- The last `width` hexadecimal digits of `n`, lower case, the most significant first. -/
def hex : (width : Nat) → (n : Nat) → Text
  | 0, _ => []
  | width + 1, n => hex width (n / 16) ++ [Nat.digitChar (n % 16)]

@[simp] theorem length_hex (width n : Nat) : (hex width n).length = width := by
  induction width generalizing n with
  | zero => rfl
  | succ width ih => simp [hex, ih]

end Numeral
end MonkeyLexis
