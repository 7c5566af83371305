/-!
# Tokens of a line

A line is cut at every space, each piece at every comma, and the empty pieces are dropped. No other
character separates: a tab is part of its token.
-/

namespace HexMachine.Token

/-- The pieces between spaces and commas, empty ones included. -/
def pieces (line : List Char) : List (List Char) :=
  (line.splitOn ' ').flatMap (·.splitOn ',')

/-- The tokens of a line, in order. -/
def ofLine (line : String) : List String :=
  ((pieces line.toList).filter (· ≠ [])).map String.ofList

end HexMachine.Token
