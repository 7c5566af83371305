/-!
# Blank characters

The characters with the Unicode property White_Space, as a table of code point ranges, and the
texts made of them alone. A program text is skipped up to its first line that is not blank.
-/

namespace HexMachine.Text

/-- The code point ranges of White_Space, both ends included, in increasing order. -/
def blankRanges : List (Nat × Nat) :=
  [(0x09, 0x0D), (0x20, 0x20), (0x85, 0x85), (0xA0, 0xA0), (0x1680, 0x1680), (0x2000, 0x200A),
    (0x2028, 0x2029), (0x202F, 0x202F), (0x205F, 0x205F), (0x3000, 0x3000)]

/-- Whether a character has the property White_Space. -/
def isBlank (c : Char) : Bool :=
  blankRanges.any fun r => r.1 ≤ c.toNat && c.toNat ≤ r.2

/-- A text is blank when it holds blank characters only; the empty text is blank. -/
def isBlankText (text : String) : Bool := text.toList.all isBlank

end HexMachine.Text
