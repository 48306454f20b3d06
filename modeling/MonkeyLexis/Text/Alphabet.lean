import MonkeyLexis.Text.Basic

/-!
# The alphabet of the language

Blanks separate lexemes. Letters and digits are those of ASCII, and the
underscore counts as a letter. The three classes are disjoint. Every other
character is an operator character or belongs to no lexeme.

The comparison of whole texts with the ends of a class is also given. It agrees
with the class on texts of one character.
-/

namespace MonkeyLexis
namespace Alphabet

def isBlank (c : Char) : Bool := c == ' ' || c == '\t' || c == '\n' || c == '\r'

/-- An ASCII letter or the underscore. -/
def isLetter (c : Char) : Bool :=
  ('a' ≤ c && c ≤ 'z') || ('A' ≤ c && c ≤ 'Z') || c == '_'

def isDigit (c : Char) : Bool := '0' ≤ c && c ≤ '9'

/-- What may follow the first letter of a word. -/
def isWordChar (c : Char) : Bool := isLetter c || isDigit c

theorem isBlank_iff {c : Char} : isBlank c ↔ c = ' ' ∨ c = '\t' ∨ c = '\n' ∨ c = '\r' := by
  simp [isBlank, or_assoc]

theorem isLetter_eq_false_of_isBlank {c : Char} (h : isBlank c) : isLetter c = false := by
  rcases isBlank_iff.mp h with rfl | rfl | rfl | rfl <;> decide

theorem isDigit_eq_false_of_isBlank {c : Char} (h : isBlank c) : isDigit c = false := by
  rcases isBlank_iff.mp h with rfl | rfl | rfl | rfl <;> decide

theorem isWordChar_eq_false_of_isBlank {c : Char} (h : isBlank c) : isWordChar c = false := by
  simp [isWordChar, isLetter_eq_false_of_isBlank h, isDigit_eq_false_of_isBlank h]

theorem isDigit_iff {c : Char} : isDigit c ↔ '0' ≤ c ∧ c ≤ '9' := by
  simp [isDigit]

theorem isLetter_iff {c : Char} :
    isLetter c ↔ ('a' ≤ c ∧ c ≤ 'z') ∨ ('A' ≤ c ∧ c ≤ 'Z') ∨ c = '_' := by
  simp [isLetter, or_assoc]

theorem isLetter_eq_false_of_isDigit {c : Char} (h : isDigit c) : isLetter c = false := by
  rw [Bool.eq_false_iff, Ne, isLetter_iff]
  obtain ⟨hlo, hhi⟩ := isDigit_iff.mp h
  simp only [Char.le_def, UInt32.le_iff_toNat_le] at *
  rintro (⟨ha, _⟩ | ⟨ha, _⟩ | rfl)
  · exact absurd (Nat.le_trans ha hhi) (by decide)
  · exact absurd (Nat.le_trans ha hhi) (by decide)
  · exact absurd hhi (by decide)

/-- The first text does not come after the second one in dictionary order. -/
def notAfter : Text → Text → Bool
  | [], _ => true
  | _ :: _, [] => false
  | c :: s, d :: t => decide (c < d) || (c == d && notAfter s t)

theorem notAfter_singleton (c d : Char) : notAfter [c] [d] = decide (c ≤ d) := by
  have h : c ≤ d ↔ c < d ∨ c = d := Std.le_iff_lt_or_eq
  rw [Bool.eq_iff_iff]
  simp [notAfter, h]

def between (first last t : Text) : Bool := notAfter first t && notAfter t last

theorem between_singleton (first last c : Char) :
    between [first] [last] [c] = (decide (first ≤ c) && decide (c ≤ last)) := by
  rw [between, notAfter_singleton, notAfter_singleton]

/-- The text is ordered among the letters: `"ab"` is, `"zz"` and the empty text are not. -/
def ranksAsLetter (t : Text) : Bool := between "a" "z" t || between "A" "Z" t || t == "_"

theorem ranksAsLetter_singleton (c : Char) : ranksAsLetter [c] = isLetter c := by
  have hl := between_singleton 'a' 'z' c
  have hu := between_singleton 'A' 'Z' c
  show (between ['a'] ['z'] [c] || between ['A'] ['Z'] [c] || [c] == ['_']) = _
  rw [hl, hu]
  simp [isLetter]

def ranksAsDigit (t : Text) : Bool := between "0" "9" t

theorem ranksAsDigit_singleton (c : Char) : ranksAsDigit [c] = isDigit c :=
  between_singleton '0' '9' c

end Alphabet
end MonkeyLexis
