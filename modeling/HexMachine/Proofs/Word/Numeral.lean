import HexMachine.Word.Printer
import HexMachine.Word.Reader
import Mathlib.Data.List.TakeWhile

/-!
# Numerals

The number a run of hexadecimal digits stands for, and the reader and the printer of words against
it. The reader accumulates downward in a word and checks the range at every digit; since the number
only grows with more digits, the first digit out of range decides the whole run.

Main statements: `ofDigits?_eq`, a signed run of digits is read as its number if that is a word and
is refused otherwise; `read_hex`, the text a word is stored as reads back as the word's low half.
-/
namespace HexMachine.Word

/-! ## The number of a run of digits -/

/-- The number written by digits that continue a number read before. -/
def numeral (start : Nat) (digits : List Char) : Nat :=
  digits.foldl (fun n c => 16 * n + digitValue c) start

theorem numeral_append (start : Nat) (front back : List Char) :
    numeral start (front ++ back) = numeral (numeral start front) back := by
  simp [numeral]

/-- More digits make no smaller number. -/
theorem le_numeral (start : Nat) (digits : List Char) : start ≤ numeral start digits := by
  induction digits generalizing start with
  | nil => exact Nat.le_refl start
  | cons c rest ih =>
    have hrest := ih (16 * start + digitValue c)
    simp only [numeral, List.foldl_cons] at hrest ⊢
    omega

/-! ## Reading a run of digits -/

theorem ofInt?_toInt (word : Word) : ofInt? word.toInt = some word := by
  have hlow := Int64.le_toInt word
  have hhigh := Int64.toInt_lt word
  rw [ofInt?, if_pos ⟨hlow, hhigh⟩, Int64.ofInt_toInt]

theorem ofInt?_eq_none_iff {value : Int} :
    ofInt? value = none ↔ value < -0x8000000000000000 ∨ 0x8000000000000000 ≤ value := by
  simp only [ofInt?, ite_eq_right_iff, reduceCtorEq, imp_false]
  omega

/-- The running value is the negated number of the digits so far, as long as that is a word. -/
theorem foldlM_pushDigit (digits : List Char) (start : Nat) (negated : Word)
    (h : negated.toInt = -(start : Int)) :
    digits.foldlM pushDigit negated = ofInt? (-(numeral start digits : Int)) := by
  induction digits generalizing start negated with
  | nil =>
    rw [List.foldlM_nil, numeral, List.foldl_nil, ← h, ofInt?_toInt]
    rfl
  | cons c rest ih =>
    have hpush : pushDigit negated c = ofInt? (-((16 * start + digitValue c : Nat) : Int)) := by
      rw [pushDigit, h]
      congr 1
      push_cast
      omega
    have hstep : numeral start (c :: rest) = numeral (16 * start + digitValue c) rest := rfl
    rw [List.foldlM_cons, hpush, hstep]
    cases hnext : ofInt? (-((16 * start + digitValue c : Nat) : Int)) with
    | some next => exact ih (16 * start + digitValue c) next (toInt_of_ofInt? hnext)
    | none =>
      -- the number is out of range already, and the remaining digits cannot bring it back
      have hgrow := le_numeral (16 * start + digitValue c) rest
      have hout : ofInt? (-(numeral (16 * start + digitValue c) rest : Int)) = none := by
        rw [ofInt?_eq_none_iff] at hnext ⊢
        omega
      rw [hout]
      rfl

/-- **`ofDigits?_eq`**: the checks made digit by digit come to one check of the number. -/
theorem ofDigits?_eq (negative : Bool) (digits : List Char) :
    ofDigits? negative digits =
      ofInt? (if negative then -(numeral 0 digits : Int) else numeral 0 digits) := by
  have hfold := foldlM_pushDigit digits 0 0 (by decide)
  rw [ofDigits?, hfold]
  cases hword : ofInt? (-(numeral 0 digits : Int)) with
  | some word =>
    have hvalue := toInt_of_ofInt? hword
    cases negative with
    | true => simp [hword]
    | false => simp [hvalue]
  | none =>
    cases negative with
    | true => simp [hword]
    | false =>
      have hout : ofInt? (numeral 0 digits : Int) = none := by
        rw [ofInt?_eq_none_iff] at hword ⊢
        omega
      simp [hout]

/-! ## Reading a text of digits alone -/

/-- A hexadecimal digit is neither white space nor a sign nor part of a marker. -/
theorem ne_of_isHexDigit {c : Char} (h : c.isHexDigit = true) :
    isSpace c = false ∧ c ≠ '-' ∧ c ≠ '+' ∧ c ≠ 'x' ∧ c ≠ 'X' := by
  have hne : ∀ d : Char, d.isHexDigit = false → c ≠ d := by
    intro d hd e
    rw [e, hd] at h
    cases h
  refine ⟨?_, hne _ rfl, hne _ rfl, hne _ rfl, hne _ rfl⟩
  simp only [Char.isHexDigit, Char.isDigit, ge_iff_le, Bool.or_eq_true, Bool.and_eq_true,
    decide_eq_true_eq, UInt32.le_iff_toNat_le] at h
  simp only [isSpace, Bool.or_eq_false_iff, beq_eq_false_iff_ne, Bool.and_eq_false_iff,
    decide_eq_false_iff_not, Char.le_def, UInt32.le_iff_toNat_le]
  refine ⟨hne _ rfl, Or.inr ?_⟩
  simp only [Char.reduceVal, UInt32.reduceToNat] at h ⊢
  omega

theorem dropMarker_digits {digits : List Char} (h : ∀ c ∈ digits, c.isHexDigit = true) :
    dropMarker digits = digits := by
  unfold dropMarker
  split
  · rename_i x digit rest
    have hx := ne_of_isHexDigit (h x (by simp))
    simp [hx.2.2.2.1, hx.2.2.2.2]
  · rfl

theorem splitSign_digits {digits : List Char} (h : ∀ c ∈ digits, c.isHexDigit = true) :
    splitSign digits = (false, digits) := by
  unfold splitSign
  split
  · exact absurd (h '-' (by simp)) (by decide)
  · exact absurd (h '+' (by simp)) (by decide)
  · rfl

theorem dropWhile_isSpace_digits {digits : List Char} (h : ∀ c ∈ digits, c.isHexDigit = true) :
    digits.dropWhile isSpace = digits := by
  cases digits with
  | nil => rfl
  | cons c rest =>
    have hc := ne_of_isHexDigit (h c (by simp))
    rw [List.dropWhile_cons_of_neg (by simp [hc.1])]

/-- A text of digits alone is read as its number, if that is a word. -/
theorem read_digits {digits : List Char} (hne : digits ≠ [])
    (h : ∀ c ∈ digits, c.isHexDigit = true) {word : Word}
    (hword : ofInt? (numeral 0 digits) = some word) : read (String.ofList digits) = .ok word := by
  have hrun : digits.takeWhile Char.isHexDigit = digits := List.takeWhile_eq_self_iff.2 h
  rw [read, String.toList_ofList, dropWhile_isSpace_digits h, splitSign_digits h]
  simp only [dropMarker_digits h, hrun, if_neg hne, ofDigits?_eq, Bool.false_eq_true, if_false,
    hword]

/-! ## Writing and reading back -/

theorem digitValue_digitChar {n : Nat} (h : n < 16) :
    n.digitChar.isHexDigit = true ∧ digitValue n.digitChar = n := by
  revert n
  decide

theorem isHexDigit_of_mem_hexDigits (n : Nat) : ∀ c ∈ hexDigits n, c.isHexDigit = true := by
  unfold hexDigits
  induction n using Nat.base_induction 16 (by decide) with
  | single m hm =>
    intro c hc
    rw [Nat.toDigits_of_lt_base hm, List.mem_singleton] at hc
    rw [hc]
    exact (digitValue_digitChar hm).1
  | digit m k hk hm ih =>
    intro c hc
    rw [← Nat.toDigits_append_toDigits (by decide) hm hk, Nat.toDigits_of_lt_base hk,
      List.mem_append, List.mem_singleton] at hc
    rcases hc with hc | rfl
    · exact ih c hc
    · exact (digitValue_digitChar hk).1

theorem numeral_hexDigits (n : Nat) : numeral 0 (hexDigits n) = n := by
  unfold hexDigits
  induction n using Nat.base_induction 16 (by decide) with
  | single m hm =>
    rw [Nat.toDigits_of_lt_base hm]
    simp [numeral, (digitValue_digitChar hm).2]
  | digit m k hk hm ih =>
    rw [← Nat.toDigits_append_toDigits (by decide) hm hk, numeral_append, ih,
      Nat.toDigits_of_lt_base hk]
    simp [numeral, (digitValue_digitChar hk).2]

/-- The word with the number of a word's low half. -/
def lowHalf (word : Word) : Word := Int64.ofNat word.low

theorem toInt_lowHalf (word : Word) : word.lowHalf.toInt = word.low := by
  have hlow := low_lt word
  rw [UInt32.size] at hlow
  exact Int64.toInt_ofNat_of_lt (by omega)

/-- **`read_hex`**: the text a word is stored as reads back, as the word's low half. -/
theorem read_hex (word : Word) : read word.hex = .ok word.lowHalf := by
  have hword : ofInt? (numeral 0 (hexDigits word.low)) = some word.lowHalf := by
    rw [numeral_hexDigits, ← toInt_lowHalf, ofInt?_toInt]
  exact read_digits Nat.toDigits_ne_nil (isHexDigit_of_mem_hexDigits word.low) hword

end HexMachine.Word
