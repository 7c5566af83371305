/-!
# Machine words

A word is a signed 64-bit number. Arithmetic wraps around in two's complement; division goes toward
zero. The seven binary operations of the machine are given here as functions on words: only division
can fail, and it does so exactly on a zero divisor.
-/

namespace HexMachine

/-- A signed 64-bit number with wrap-around arithmetic. -/
abbrev Word := Int64

/-- The word with a given mathematical value, if the value fits. -/
def Word.ofInt? (value : Int) : Option Word :=
  if -0x8000000000000000 ≤ value ∧ value < 0x8000000000000000 then some (Int64.ofInt value)
  else none

/-- The word for a value has that value. -/
theorem Word.toInt_of_ofInt? {value : Int} {word : Word} (h : Word.ofInt? value = some word) :
    word.toInt = value := by
  unfold Word.ofInt? at h
  split at h
  next hr =>
    cases h
    rw [Int64.toInt_ofInt]
    exact Int.bmod_eq_of_le (by simp [Int64.size]; omega) (by simp [Int64.size]; omega)
  next => cases h

/-- The operations that combine two words. -/
inductive BinaryOp where
  | add
  | sub
  | div
  | mul
  | and
  | or
  | xor
deriving DecidableEq, Repr

/-- The result of an operation on two words, absent when the divisor is zero. -/
def BinaryOp.apply (op : BinaryOp) (lhs rhs : Word) : Option Word :=
  match op with
  | .add => some (lhs + rhs)
  | .sub => some (lhs - rhs)
  | .div => if rhs = 0 then none else some (lhs / rhs)
  | .mul => some (lhs * rhs)
  | .and => some (lhs &&& rhs)
  | .or => some (lhs ||| rhs)
  | .xor => some (lhs ^^^ rhs)

/-- Only division by zero has no result. -/
theorem BinaryOp.apply_eq_none_iff {op : BinaryOp} {lhs rhs : Word} :
    op.apply lhs rhs = none ↔ op = .div ∧ rhs = 0 := by
  cases op <;> simp [BinaryOp.apply]

end HexMachine
