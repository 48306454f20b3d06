import MonkeyLexis.Text.Basic

/-!
# Operators and delimiters

Fourteen are single characters and two are pairs, each of which begins with a
single one. `leading?` finds the longest operator at the start of a text.
-/

namespace MonkeyLexis

inductive Operator where
  | assign
  | plus
  | minus
  | bang
  | asterisk
  | slash
  | less
  | greater
  | equal
  | notEqual
  | comma
  | semicolon
  | leftParen
  | rightParen
  | leftBrace
  | rightBrace
  deriving DecidableEq, Repr

namespace Operator

/-- Operators first, then delimiters. -/
def all : List Operator :=
  [.assign, .plus, .minus, .bang, .asterisk, .slash, .less, .greater, .equal, .notEqual,
    .comma, .semicolon, .leftParen, .rightParen, .leftBrace, .rightBrace]

theorem mem_all (o : Operator) : o ∈ all := by cases o <;> decide

def spelling : Operator → Text
  | .assign => "="
  | .plus => "+"
  | .minus => "-"
  | .bang => "!"
  | .asterisk => "*"
  | .slash => "/"
  | .less => "<"
  | .greater => ">"
  | .equal => "=="
  | .notEqual => "!="
  | .comma => ","
  | .semicolon => ";"
  | .leftParen => "("
  | .rightParen => ")"
  | .leftBrace => "\x7b"
  | .rightBrace => "\x7d"

theorem spelling_injective {o p : Operator} (h : o.spelling = p.spelling) : o = p := by
  cases o <;> cases p <;> first | rfl | exact absurd h (by decide)

theorem spelling_ne_nil (o : Operator) : o.spelling ≠ [] := by cases o <;> decide

theorem length_spelling_le (o : Operator) : o.spelling.length ≤ 2 := by cases o <;> decide

def ofSpelling? (s : Text) : Option Operator := all.find? fun o => o.spelling == s

theorem ofSpelling?_eq_some_iff {s : Text} {o : Operator} :
    ofSpelling? s = some o ↔ s = o.spelling := by
  constructor
  · intro h
    have ho := List.find?_some h
    exact (beq_iff_eq.mp ho).symm
  · rintro rfl
    cases o <;> decide

@[simp] theorem ofSpelling?_spelling (o : Operator) : ofSpelling? o.spelling = some o :=
  ofSpelling?_eq_some_iff.mpr rfl

/-- The operator at the start of a text; a pair is preferred to its first character. -/
def leading? (t : Text) : Option Operator :=
  (ofSpelling? (t.take 2)).or (ofSpelling? (t.take 1))

theorem spelling_of_leading? {t : Text} {o : Operator} (h : leading? t = some o) :
    o.spelling = t.take o.spelling.length := by
  rcases Option.or_eq_some_iff.mp h with h | ⟨_, h⟩
  all_goals
    have hs := ofSpelling?_eq_some_iff.mp h
    rw [← hs, List.length_take]
    simp [← List.take_eq_take_min]

end Operator
end MonkeyLexis
