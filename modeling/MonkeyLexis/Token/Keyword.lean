import MonkeyLexis.Text.Basic

/-!
# Keywords

The seven reserved words in the order of their table. A word is a keyword only
if it is spelled exactly like one; `ofWord?` and `word` are inverse to each
other.
-/

namespace MonkeyLexis

inductive Keyword where
  | fnWord
  | letWord
  | trueWord
  | falseWord
  | ifWord
  | elseWord
  | returnWord
  deriving DecidableEq, Repr

namespace Keyword

/-- The table's order. -/
def all : List Keyword :=
  [.fnWord, .letWord, .trueWord, .falseWord, .ifWord, .elseWord, .returnWord]

theorem mem_all (k : Keyword) : k ∈ all := by cases k <;> decide

def word : Keyword → Text
  | .fnWord => "fn"
  | .letWord => "let"
  | .trueWord => "true"
  | .falseWord => "false"
  | .ifWord => "if"
  | .elseWord => "else"
  | .returnWord => "return"

theorem word_injective {k l : Keyword} (h : k.word = l.word) : k = l := by
  cases k <;> cases l <;> first | rfl | exact absurd h (by decide)

def ofWord? (w : Text) : Option Keyword := all.find? fun k => k.word == w

theorem ofWord?_eq_some_iff {w : Text} {k : Keyword} : ofWord? w = some k ↔ w = k.word := by
  constructor
  · intro h
    have hk := List.find?_some h
    exact (beq_iff_eq.mp hk).symm
  · rintro rfl
    cases k <;> decide

@[simp] theorem ofWord?_word (k : Keyword) : ofWord? k.word = some k :=
  ofWord?_eq_some_iff.mpr rfl

end Keyword
end MonkeyLexis
