import MonkeyLexis.Text.Quoted
import MonkeyLexis.Token.Keyword
import MonkeyLexis.Token.Operator

/-!
# Kinds of tokens

Twenty-seven kinds, each with a name and a number. The numbers count the kinds
from one in the order of `all`. A look-up by name or number that finds nothing
says what it was asked for.
-/

namespace MonkeyLexis

inductive Kind where
  | illegal
  | endOfInput
  | identifier
  | integer
  | operator (o : Operator)
  | keyword (k : Keyword)
  deriving DecidableEq, Repr

namespace Kind

/-- The order in which kinds are numbered. -/
def all : List Kind :=
  [.illegal, .endOfInput, .identifier, .integer] ++ Operator.all.map .operator ++
    Keyword.all.map .keyword

theorem mem_all (k : Kind) : k ∈ all := by
  cases k with
  | operator o => cases o <;> decide
  | keyword k => cases k <;> decide
  | _ => decide

def name : Kind → Text
  | .illegal => "ILLEGAL"
  | .endOfInput => "EOF"
  | .identifier => "IDENT"
  | .integer => "INT"
  | .operator .assign => "ASSIGN"
  | .operator .plus => "PLUS"
  | .operator .minus => "MINUS"
  | .operator .bang => "BANG"
  | .operator .asterisk => "ASTERISK"
  | .operator .slash => "SLASH"
  | .operator .less => "LT"
  | .operator .greater => "GT"
  | .operator .equal => "EQ"
  | .operator .notEqual => "NOT_EQ"
  | .operator .comma => "COMMA"
  | .operator .semicolon => "SEMICOLON"
  | .operator .leftParen => "LPAREN"
  | .operator .rightParen => "RPAREN"
  | .operator .leftBrace => "LBRACE"
  | .operator .rightBrace => "RBRACE"
  | .keyword .fnWord => "FUNCTION"
  | .keyword .letWord => "LET"
  | .keyword .trueWord => "TRUE"
  | .keyword .falseWord => "FALSE"
  | .keyword .ifWord => "IF"
  | .keyword .elseWord => "ELSE"
  | .keyword .returnWord => "RETURN"

/-- The position in `all`, counted from one. -/
def number (k : Kind) : Nat := all.idxOf k + 1

/-- The kind of a word: the keyword that it spells, or else an identifier. -/
def ofWord (w : Text) : Kind := (Keyword.ofWord? w).elim .identifier .keyword

@[simp] theorem ofWord_word (k : Keyword) : ofWord k.word = .keyword k := by
  simp [ofWord]

theorem ofWord_eq_identifier_iff {w : Text} :
    ofWord w = .identifier ↔ ∀ k, w ≠ Keyword.word k := by
  cases h : Keyword.ofWord? w with
  | none =>
    simp only [ofWord, h, Option.elim_none, true_iff]
    rintro k rfl
    simp at h
  | some k =>
    simp only [ofWord, h, Option.elim_some, reduceCtorEq, false_iff]
    exact fun hk => hk k (Keyword.ofWord?_eq_some_iff.mp h)

def ofName? (given : Text) : Option Kind := all.find? fun k => k.name == given

@[simp] theorem ofName?_name (k : Kind) : ofName? k.name = some k := by
  have h : ∀ k ∈ all, ofName? k.name = some k := by decide
  exact h k (mem_all k)

theorem name_injective {k l : Kind} (h : k.name = l.name) : k = l := by
  have hk := ofName?_name k
  rw [h, ofName?_name] at hk
  exact (Option.some.inj hk).symm

def ofNumber? (given : Int) : Option Kind := all.find? fun k => (k.number : Int) == given

@[simp] theorem ofNumber?_number (k : Kind) : ofNumber? k.number = some k := by
  have h : ∀ k ∈ all, ofNumber? k.number = some k := by decide
  exact h k (mem_all k)

/-- A kind was asked for that does not exist. -/
inductive Unknown where
  | name (given : Text)
  | number (given : Int)
  deriving DecidableEq, Repr

/-- A missing name is only shown; a missing number gets a sentence. -/
def Unknown.message : Unknown → Text
  | .name given => Quoted.encode given
  | .number given => Numeral.signed given ++ " is not a valid TokenKind"

def named (given : Text) : Except Unknown Kind :=
  (ofName? given).elim (.error (.name given)) .ok

def numbered (given : Int) : Except Unknown Kind :=
  (ofNumber? given).elim (.error (.number given)) .ok

end Kind
end MonkeyLexis
