import MonkeyLexis.Token.Kind

/-!
# Tokens

A token pairs a kind with the piece of program text that it was read from, its
literal. Tokens are equal when both parts are. Neither a token nor the keyword
table can be changed in place; an attempt is refused.
-/

namespace MonkeyLexis

/-- A kind and the text that it was read from. -/
structure Token where
  kind : Kind
  literal : Text
  deriving DecidableEq, Repr

namespace Token

/-- The token that ends every scan. -/
def endOfInput : Token := ⟨.endOfInput, []⟩

/-- The token of a word, which may be reserved. -/
def word (w : Text) : Token := ⟨.ofWord w, w⟩

/-- The different tokens among some, each at its first occurrence. -/
def distinct (tokens : List Token) : List Token := tokens.eraseDups

end Token

/-- Why something that never changes was not changed. -/
inductive Refusal where
  | tokenField (field : Text)
  | keywordTable
  deriving DecidableEq, Repr

namespace Refusal

def message : Refusal → Text
  | .tokenField field => "cannot assign to field " ++ Quoted.encode field
  | .keywordTable => "'mappingproxy' object does not support item assignment"

end Refusal

/-- Putting a value into a field of a token is refused whatever the field and the value. -/
def Token.assign (_ : Token) (field _value : Text) : Except Refusal Token :=
  .error (.tokenField field)

/-- Entering a word into the keyword table is refused whatever the word and the kind. -/
def Keyword.assign (_word : Text) (_ : Kind) : Except Refusal (List (Text × Kind)) :=
  .error .keywordTable

/-- The reserved words and their kinds, in the table's order. -/
def Keyword.table : List (Text × Kind) := Keyword.all.map fun k => (k.word, .keyword k)

end MonkeyLexis
