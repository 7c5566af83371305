import HexMachine.Proofs.Word.Numeral
import Mathlib.Data.Int.ModEq

/-!
# Words modulo 2^32

Only the low half of a word reaches a cell. Sums, differences, products and bitwise combinations
commute with taking the low half, so what is stored for them depends on the low halves of the
operands alone, however the full words wrap around. Quotients do not: they are related only for
words that are their own low half.
-/
namespace HexMachine.Word

/-- The low half of a word, as a number with arithmetic modulo 2^32. -/
def residue (word : Word) : UInt32 := word.toUInt64.toUInt32

theorem low_eq_toNat_residue (word : Word) : word.low = word.residue.toNat := rfl

theorem hex_eq_of_residue_eq {a b : Word} (h : a.residue = b.residue) : a.hex = b.hex := by
  rw [hex, hex, low_eq_toNat_residue, low_eq_toNat_residue, h]

/-- The residue is the value of the word modulo 2^32. -/
theorem toInt_emod (word : Word) : word.toInt % 2 ^ 32 = word.residue.toNat := by
  have hresidue : word.residue.toNat = word.toBitVec.toNat % 2 ^ 32 := by
    rw [residue, UInt64.toNat_toUInt32]
    rfl
  have hrange := word.toBitVec.isLt
  rw [← Int64.toInt_toBitVec, hresidue, BitVec.toInt_eq_toNat_cond]
  split <;> omega

theorem residue_eq_iff {a b : Word} :
    a.residue = b.residue ↔ a.toInt ≡ b.toInt [ZMOD 2 ^ 32] := by
  rw [Int.ModEq, toInt_emod, toInt_emod, Int.ofNat_inj, UInt32.toNat_inj]

/-! ## Operations that only see low halves -/

@[simp] theorem residue_add (a b : Word) : (a + b).residue = a.residue + b.residue := by
  simp [residue]

@[simp] theorem residue_sub (a b : Word) : (a - b).residue = a.residue - b.residue := by
  simp [residue]

@[simp] theorem residue_mul (a b : Word) : (a * b).residue = a.residue * b.residue := by
  simp [residue]

@[simp] theorem residue_and (a b : Word) : (a &&& b).residue = a.residue &&& b.residue := by
  simp [residue]

@[simp] theorem residue_or (a b : Word) : (a ||| b).residue = a.residue ||| b.residue := by
  simp [residue]

@[simp] theorem residue_xor (a b : Word) : (a ^^^ b).residue = a.residue ^^^ b.residue := by
  simp [residue]

@[simp] theorem residue_neg (a : Word) : (-a).residue = -a.residue := by
  simp [residue]

@[simp] theorem residue_one : (1 : Word).residue = 1 := rfl

/-! ## Words that are their own low half -/

@[simp] theorem residue_lowHalf (word : Word) : word.lowHalf.residue = word.residue := by
  rw [lowHalf, residue, Int64.toUInt64_ofNat', UInt64.toUInt32_ofNat', low_eq_toNat_residue,
    UInt32.ofNat_toNat]

theorem eq_ofNat_of_toInt {word : Word} {n : UInt32} (h : word.toInt = n.toNat) :
    word = Int64.ofNat n.toNat := by
  rw [← Int64.toInt_inj, h, Int64.toInt_ofNat_of_lt]
  have hn := n.toNat_lt
  omega

theorem residue_of_toInt {word : Word} {n : UInt32} (h : word.toInt = n.toNat) :
    word.residue = n := by
  rw [eq_ofNat_of_toInt h, residue, Int64.toUInt64_ofNat', UInt64.toUInt32_ofNat', UInt32.ofNat_toNat]

/-- A zero divisor is a zero word. -/
theorem eq_zero_iff_of_toInt {word : Word} {n : UInt32} (h : word.toInt = n.toNat) :
    word = 0 ↔ n = 0 := by
  rw [← Int64.toInt_inj, ← UInt32.toNat_inj, h]
  simp

/-- The quotient of two words in the range of low halves is the unsigned quotient. -/
theorem residue_div {a b : Word} {m n : UInt32} (ha : a.toInt = m.toNat) (hb : b.toInt = n.toNat) :
    (a / b).residue = m / n := by
  have hm := m.toNat_lt
  have hneg : b ≠ -1 := by
    intro e
    have hminus : (-1 : Word).toInt = -1 := by decide
    rw [e, hminus] at hb
    omega
  have hquot : (a / b).toInt = ((m / n).toNat : Int) := by
    rw [Int64.toInt_div_of_ne_right a b hneg, ha, hb, UInt32.toNat_div]
    exact Int.ofNat_tdiv m.toNat n.toNat
  exact residue_of_toInt hquot

end HexMachine.Word
