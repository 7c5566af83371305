import HexMachine.Proofs.Word.Canonical

/-!
# Stored results are exact modulo 2^32

The operations work on 64-bit words that wrap around, and of a result only the low half is stored.
`BinaryOp.exact` is the operation on integers, without bounds. Main statement
`stored_results_are_exact`: what is stored is the canonical text of the exact result modulo 2^32. This
holds for quotients too. The one quotient of words that is no word, that of the least word by minus
one, wraps around like a sum or a product, and its text is that of zero.

One lemma does for all four arithmetic operations, `hex_of_wraps`: wrapping around at 2^64 is lost when
only the remainder modulo 2^32 is kept. The bitwise operations commute with taking the low half, which
is `residue_and` and its like.
-/
namespace HexMachine

namespace Word

/-! ## The text of an integer -/

/-- The remainder of an integer modulo 2^32. -/
def remainder (value : Int) : Nat := (value % 2 ^ 32).toNat

/-- The text of an integer modulo 2^32: its remainder in hexadecimal, with small letters and as few
digits as possible. -/
def hexOf (value : Int) : String := String.ofList (hexDigits (remainder value))

theorem remainder_eq (value : Int) : (remainder value : Int) = value % 2 ^ 32 :=
  Int.toNat_of_nonneg (Int.emod_nonneg value (by decide))

theorem remainder_toInt (word : Word) : remainder word.toInt = word.low := by
  rw [remainder, toInt_emod, low_eq_toNat_residue, Int.toNat_natCast]

theorem hex_eq_hexOf (word : Word) : word.hex = hexOf word.toInt := by
  rw [hex, hexOf, remainder_toInt]

theorem hexOf_congr {a b : Int} (h : a ≡ b [ZMOD 2 ^ 32]) : hexOf a = hexOf b := by
  rw [hexOf, hexOf, remainder, remainder, h]

/-- Wrapping around at 64 bits adds a multiple of 2^64, and so one of 2^32. -/
theorem bmod_modEq (value : Int) : value.bmod (2 ^ 64) ≡ value [ZMOD 2 ^ 32] := by
  rw [Int.ModEq, Int.bmod_eq_emod]
  split <;> omega

/-- A word that is an integer wrapped around at 64 bits is stored as the text of the integer. -/
theorem hex_of_wraps {word : Word} {value : Int} (h : word.toInt = value.bmod (2 ^ 64)) :
    word.hex = hexOf value := by
  rw [hex_eq_hexOf, h, hexOf_congr (bmod_modEq value)]

theorem hex_ofInt (value : Int) : hex (Int64.ofInt value) = hexOf value :=
  hex_of_wraps Int64.toInt_ofInt

theorem hex_of_low {word : Word} {n : Nat} (h : word.low = n) : word.hex = hexOf n := by
  have hlt := low_lt word
  have hn : remainder n = n := by
    rw [UInt32.size] at hlt
    simp only [remainder]
    omega
  rw [hex, hexOf, hn, h]

/-- The text of an integer is canonical, and the digits stand for the remainder. -/
theorem isCanonical_hexOf (value : Int) :
    IsCanonical (hexOf value) ∧ (magnitude (hexOf value).toList : Int) = value % 2 ^ 32 := by
  refine ⟨hex_ofInt value ▸ isCanonical_hex _, ?_⟩
  have hdigits : ∀ c ∈ hexDigits (remainder value), IsDigit c :=
    fun c hc => isHexDigit_iff.1 (isHexDigit_of_mem_hexDigits _ c hc)
  rw [hexOf, String.toList_ofList, ← numeral_eq_magnitude hdigits, numeral_hexDigits, remainder_eq]

/-- The text of an integer is read as the remainder. -/
theorem read_hexOf (value : Int) :
    ∃ word, read (hexOf value) = .ok word ∧ word.toInt = value % 2 ^ 32 := by
  refine ⟨lowHalf (Int64.ofInt value), hex_ofInt value ▸ read_hex _, ?_⟩
  rw [toInt_lowHalf_eq_emod, Int64.toInt_ofInt]
  exact bmod_modEq value

end Word

/-! ## Operations on integers -/

/-- The result of an operation on integers, absent when the divisor is zero. Quotients are truncated
toward zero, and bitwise operations combine remainders modulo 2^32. -/
def BinaryOp.exact (op : BinaryOp) (a b : Int) : Option Int :=
  match op with
  | .add => some (a + b)
  | .sub => some (a - b)
  | .div => if b = 0 then none else some (a.tdiv b)
  | .mul => some (a * b)
  | .and => some (Word.remainder a &&& Word.remainder b : Nat)
  | .or => some (Word.remainder a ||| Word.remainder b : Nat)
  | .xor => some (Word.remainder a ^^^ Word.remainder b : Nat)

namespace Word

theorem eq_zero_iff_toInt (word : Word) : word = 0 ↔ word.toInt = 0 := by
  rw [← Int64.toInt_inj]
  rfl

end Word

namespace BinaryOp

open Word (hex hexOf)

/-- **`hex_apply`**: a result is stored as the text of the exact result. -/
theorem hex_apply (op : BinaryOp) (a b : Word) :
    (op.apply a b).map hex = (op.exact a.toInt b.toInt).map hexOf := by
  cases op with
  | add => exact congrArg some (Word.hex_of_wraps (Int64.toInt_add a b))
  | sub => exact congrArg some (Word.hex_of_wraps (Int64.toInt_sub a b))
  | mul => exact congrArg some (Word.hex_of_wraps (Int64.toInt_mul a b))
  | div =>
    simp only [apply, exact, Word.eq_zero_iff_toInt b]
    by_cases hzero : b.toInt = 0
    · rw [if_pos hzero, if_pos hzero]
      rfl
    · rw [if_neg hzero, if_neg hzero]
      exact congrArg some (Word.hex_of_wraps (Int64.toInt_div a b))
  | and | or | xor =>
    refine congrArg some (Word.hex_of_low ?_)
    simp [Word.remainder_toInt, Word.low_eq_toNat_residue]

/-- The operations whose operands may change places. -/
def commutative : List BinaryOp := [.add, .mul, .and, .or, .xor]

theorem exact_comm {op : BinaryOp} (h : op ∈ commutative) (a b : Int) :
    op.exact a b = op.exact b a := by
  cases op with
  | add => exact congrArg some (Int.add_comm a b)
  | mul => exact congrArg some (Int.mul_comm a b)
  | and => simp only [exact, Nat.and_comm]
  | or => simp only [exact, Nat.or_comm]
  | xor => simp only [exact, Nat.xor_comm]
  | sub => exact absurd h (by decide)
  | div => exact absurd h (by decide)

/-- **`stored_results_are_exact`**: the text of an integer is canonical and its digits stand for the
integer modulo 2^32. An operation on two words stores the text of the exact result on the integers
that they are; it has no result if and only if it is a division by zero; and for all operations but
difference and quotient the stored text is the same with the operands in the other order. -/
theorem stored_results_are_exact :
    (∀ value : Int, Word.IsCanonical (hexOf value) ∧
      (Word.magnitude (hexOf value).toList : Int) = value % 2 ^ 32) ∧
    ∀ (op : BinaryOp) (a b : Word),
      (op.apply a b).map hex = (op.exact a.toInt b.toInt).map hexOf ∧
      (op.apply a b = none ↔ op = .div ∧ b.toInt = 0) ∧
      (op ∈ commutative → (op.apply a b).map hex = (op.apply b a).map hex) := by
  refine ⟨Word.isCanonical_hexOf, fun op a b => ⟨op.hex_apply a b, ?_, fun hop => ?_⟩⟩
  · rw [apply_eq_none_iff, Word.eq_zero_iff_toInt]
  · rw [hex_apply, hex_apply, exact_comm hop]

/-- The quotient of the least word by minus one, the product of two words that leaves their range, in
either order, and a bitwise operation on a negative word. -/
theorem stored_results_are_exact_least :
    (BinaryOp.div.apply Int64.minValue (-1)).map hex = some (hexOf (2 ^ 63)) ∧
    hexOf (2 ^ 63) = "0" ∧
    (BinaryOp.mul.apply Int64.maxValue (-2)).map hex =
      (BinaryOp.mul.apply (-2) Int64.maxValue).map hex ∧
    (BinaryOp.xor.apply (-1) 0xf).map hex = some "fffffff0" := by
  obtain ⟨-, hexact⟩ := stored_results_are_exact
  refine ⟨(hexact .div Int64.minValue (-1)).1, by decide,
    (hexact .mul Int64.maxValue (-2)).2.2 (by decide), ?_⟩
  rw [(hexact .xor (-1) 0xf).1]
  decide

end BinaryOp

end HexMachine
