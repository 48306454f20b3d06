import MonkeyLexis.Scan.Tokens
import MonkeyLexis.Token.Printer

/-!
# Listings

A listing names the tokens of numbered lines, one record for each token. Lines
are numbered from one and scanned on their own. The end tokens of the lines are
listed only on request; they never count as illegal.
-/

namespace MonkeyLexis

/-- A token and the number of the line that it stands on. -/
structure Entry where
  line : Nat
  token : Token
  deriving DecidableEq, Repr

/-- The record of an entry: line number, kind and quoted literal, ended by a line feed. -/
def Entry.record (e : Entry) : Text :=
  Numeral.decimal e.line ++ ":" ++ e.token.kind.name ++ "\t" ++
    Quoted.encode e.token.literal ++ "\n"

namespace Listing

def lineTokens (showEnd : Bool) (line : Text) : List Token :=
  if showEnd then tokens line else lexemes line

/-- The entries of lines that are numbered from `first`. -/
def entriesFrom (showEnd : Bool) (first : Nat) : List Text → List Entry
  | [] => []
  | line :: lines =>
    (lineTokens showEnd line).map (Entry.mk first) ++ entriesFrom showEnd (first + 1) lines

def entries (showEnd : Bool) (lines : List Text) : List Entry := entriesFrom showEnd 1 lines

theorem entriesFrom_append (showEnd : Bool) (first : Nat) (xs ys : List Text) :
    entriesFrom showEnd first (xs ++ ys) =
      entriesFrom showEnd first xs ++ entriesFrom showEnd (first + xs.length) ys := by
  induction xs generalizing first with
  | nil => rfl
  | cons line xs ih => simp [entriesFrom, ih, Nat.add_comm, Nat.add_left_comm]

def written (es : List Entry) : Text := es.flatMap Entry.record

theorem written_append (es fs : List Entry) : written (es ++ fs) = written es ++ written fs :=
  List.flatMap_append

def illegalCount (es : List Entry) : Nat := es.countP fun e => e.token.kind == .illegal

theorem illegalCount_append (es fs : List Entry) :
    illegalCount (es ++ fs) = illegalCount es + illegalCount fs :=
  List.countP_append

end Listing
end MonkeyLexis
