import MonkeyLexis.Token.Basic

/-!
# How tokens are shown

A token is shown as its kind's name with the quoted literal in parentheses. The
listing of a file gives every token a record with the number of its line. The
debugging form also gives the kind's number.
-/

namespace MonkeyLexis
namespace Token

/-- The kind's name and the quoted literal: `LET('let')`. -/
def display (t : Token) : Text := t.kind.name ++ "(" ++ Quoted.encode t.literal ++ ")"

/-- The form that names the parts: `Token(kind=<TokenKind.LET: 22>, literal='let')`. -/
def debug (t : Token) : Text :=
  "Token(kind=<TokenKind." ++ t.kind.name ++ ": " ++ Numeral.decimal t.kind.number ++
    ">, literal=" ++ Quoted.encode t.literal ++ ")"

def displayLine (t : Token) : Text := t.display ++ "\n"

end Token
end MonkeyLexis
