import HexMachine.Word.Basic

/-!
# Writing words

A stored number keeps the low 32 bits of its word and is written in lowercase hexadecimal with as few
digits as possible.
-/

namespace HexMachine.Word

/-- The hexadecimal digits of a natural number, lowercase and without leading zeros. -/
def hexDigits (n : Nat) : List Char := Nat.toDigits 16 n

/-- The low 32 bits of a word, as a natural number. -/
def low (word : Word) : Nat := word.toUInt64.toUInt32.toNat

/-- The text a word is stored as. -/
def hex (word : Word) : String := String.ofList (hexDigits word.low)

theorem low_lt (word : Word) : word.low < UInt32.size := UInt32.toNat_lt_size _

end HexMachine.Word
