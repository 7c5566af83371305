import HexMachine.Word.Basic

/-!
# Reading words

A word is read from the front of a text: white space, a sign, a `0x` marker that counts only before a
digit, and the longest run of hexadecimal digits. What follows the digits is ignored. The digits are
accumulated downward, since the least word has no positive counterpart, and reading stops at the
first digit that leaves the range of words.
-/

namespace HexMachine.Word

inductive ReadError where
  | noDigits
  | outOfRange
deriving DecidableEq, Repr

def ReadError.message : ReadError → String
  | .noDigits => "no hexadecimal digits"
  | .outOfRange => "value out of range"

/-- The white space allowed before a number: the space and the controls from tab to carriage
return. -/
def isSpace (c : Char) : Bool := c == ' ' || ('\t' ≤ c && c ≤ '\r')

/-- Splits a leading sign off; `true` stands for minus. -/
def splitSign : List Char → Bool × List Char
  | '-' :: rest => (true, rest)
  | '+' :: rest => (false, rest)
  | text => (false, text)

/-- Drops a leading `0x` or `0X` if a hexadecimal digit follows it. -/
def dropMarker : List Char → List Char
  | '0' :: x :: digit :: rest =>
    if (x = 'x' ∨ x = 'X') ∧ digit.isHexDigit then digit :: rest else '0' :: x :: digit :: rest
  | text => text

def digitValue (c : Char) : Nat :=
  if c.isDigit then c.toNat - '0'.toNat
  else if 'a' ≤ c then c.toNat - 'a'.toNat + 10
  else c.toNat - 'A'.toNat + 10

/-- Appends a digit to a number that is held negated. -/
def pushDigit (negated : Word) (digit : Char) : Option Word :=
  ofInt? (negated.toInt * 16 - digitValue digit)

/-- The word written by a sign and a run of digits. -/
def ofDigits? (negative : Bool) (digits : List Char) : Option Word := do
  let negated ← digits.foldlM pushDigit 0
  if negative then some negated else ofInt? (-negated.toInt)

/-- Reads the word at the front of a text. -/
def read (text : String) : Except ReadError Word :=
  let (negative, unsigned) := splitSign (text.toList.dropWhile isSpace)
  let digits := (dropMarker unsigned).takeWhile Char.isHexDigit
  if digits = [] then .error .noDigits
  else
    match ofDigits? negative digits with
    | some word => .ok word
    | none => .error .outOfRange

end HexMachine.Word
