import HexMachine.Text.Blank
import HexMachine.Text.Trailing

/-!
# Program texts

A program text is a sequence of bytes: blank lines, a line that starts with an instruction count,
and the lines to be counted off. What follows the count on its line is an instruction too. Lines are
decoded one by one, and only as far as the count reaches, so bytes after the last counted line do
not matter, be they text or not.

No room is reserved for the counted lines, so that any count below 2^64 will do. This leaves out the
failure of a loader that reserves room for one line more than the count, at 24 bytes each, before it
reads them: there can be no such room if the count is 2^63 / 24 or more, and above a smaller one there
may be none, as the memory at hand decides.
-/

namespace HexMachine.Program

/-- Why the bytes of a program text could not be read. -/
inductive ReadFailure where
  | notUtf8
  | isDirectory
deriving DecidableEq, Repr

def ReadFailure.message : ReadFailure → String
  | .notUtf8 => "stream did not contain valid UTF-8"
  | .isDirectory => "Is a directory (os error 21)"

inductive LoadError where
  | unreadable (failure : ReadFailure)
  | missingCount
  | invalidCount (header : String)
deriving DecidableEq, Repr

namespace LoadError

def message : LoadError → String
  | .unreadable failure => "Failed to read program: " ++ failure.message
  | .missingCount => "Missing instruction count"
  | .invalidCount header => "Invalid instruction count line: '" ++ header ++ "'"

def cause? : LoadError → Option ReadFailure
  | .unreadable failure => some failure
  | _ => none

end LoadError

/-! ## Lines of bytes -/

/-- The byte that ends a line. -/
def newline : UInt8 := 10

/-- The byte that may stand before a newline and then belongs to it. -/
def carriageReturn : UInt8 := 13

/-- The lines of a byte sequence, without their ends. What follows the last newline is a line if it
is not empty; a carriage return in it is kept. -/
def rawLines (bytes : List UInt8) : List (List UInt8) :=
  let pieces := bytes.splitOn newline
  pieces.dropLast.map (Text.dropTrailing carriageReturn) ++ pieces.getLast?.toList.filter (· ≠ [])

def decode (line : List UInt8) : Except LoadError String :=
  match String.fromUTF8? ⟨line.toArray⟩ with
  | some text => .ok text
  | none => .error (.unreadable .notUtf8)

/-! ## The count -/

/-- The first line that is not blank, and the lines after it. -/
def header : List (List UInt8) → Except LoadError (String × List (List UInt8))
  | [] => .error .missingCount
  | line :: rest =>
    match decode line with
    | .error failure => .error failure
    | .ok text => if Text.isBlankText text then header rest else .ok (text, rest)

/-- The number a run of decimal digits stands for. -/
def decimalValue (digits : List Char) : Nat :=
  digits.foldl (fun n c => n * 10 + (c.toNat - '0'.toNat)) 0

/-- A count is a non-empty run of digits with a value below 2^64. -/
def count? (digits : List Char) : Option Nat :=
  if digits ≠ [] ∧ decimalValue digits < UInt64.size then some (decimalValue digits) else none

/-- Splits the count off a header; leading blanks and a trailing carriage return are skipped. -/
def splitCount? (header : String) : Option (Nat × String) :=
  let text := (Text.dropTrailing '\r' header.toList).dropWhile Text.isBlank
  (count? (text.takeWhile Char.isDigit)).map fun count =>
    (count, String.ofList (text.dropWhile Char.isDigit))

/-! ## Loading -/

/-- The text of a counted line, without a trailing carriage return. -/
def instructionLine (line : List UInt8) : Except LoadError String :=
  (decode line).map fun text => String.ofList (Text.dropTrailing '\r' text.toList)

/-- Loads a program: the rest of the count's line, then the counted lines, less the empty ones. -/
def load (bytes : List UInt8) : Except LoadError (List String) := do
  let (headerText, following) ← header (rawLines bytes)
  match splitCount? headerText with
  | none => .error (.invalidCount headerText)
  | some (count, rest) =>
    let counted ← (following.take count).mapM instructionLine
    return (rest :: counted).filter (· ≠ "")

end HexMachine.Program
