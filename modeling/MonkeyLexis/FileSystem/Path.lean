import MonkeyLexis.Text.Basic

/-!
# Paths

A path is a root, which relative paths lack, and the names to follow from there.
Empty names and single dots are dropped when a path is read; double dots are kept.
Exactly two slashes at the start are a root of their own, any other number of them
is the plain root.
-/

namespace MonkeyLexis

/-- A root, empty for a relative path, and the names behind it. -/
structure Path where
  root : Text
  names : List Text
  deriving DecidableEq, Repr

namespace Path

def pieces : Text → List Text
  | [] => [[]]
  | '/' :: rest => [] :: pieces rest
  | c :: rest =>
    match pieces rest with
    | [] => [[c]]
    | piece :: others => (c :: piece) :: others

def rootOf : Text → Text
  | '/' :: '/' :: '/' :: _ => ['/']
  | '/' :: '/' :: _ => ['/', '/']
  | '/' :: _ => ['/']
  | _ => []

def ofText (t : Text) : Path :=
  ⟨rootOf t, (pieces t).filter fun piece => piece != [] && piece != ['.']⟩

/-- How a path is shown; the empty path is a dot. -/
def text (p : Path) : Text :=
  if p.root = [] ∧ p.names = [] then ['.'] else p.root ++ Text.joined ['/'] p.names

def isAbsolute (p : Path) : Bool := p.root != []

end Path
end MonkeyLexis
