import HexMachine.Word.Basic

/-!
# Instructions

The instruction set: declarations of a variable with a width marker and a literal, the binary
operations, copy and exchange, increment and decrement. `Width` and `Mnemonic` are the two closed
vocabularies of the language; both are case sensitive. The spelling of a mnemonic, the operation
behind it and the word by which an instruction is known are tables of their own.
-/

namespace HexMachine

/-- The width marker of a declaration. It is part of the text and has no effect on what is stored. -/
inductive Width where
  | byte
  | word
  | doubleWord
deriving DecidableEq, Repr

namespace Width

def keyword : Width → String
  | .byte => "DB"
  | .word => "DW"
  | .doubleWord => "DD"

def ofKeyword? : String → Option Width
  | "DB" => some .byte
  | "DW" => some .word
  | "DD" => some .doubleWord
  | _ => none

end Width

/-- The operation an instruction line may start with. -/
inductive Mnemonic where
  | move
  | exchange
  | add
  | sub
  | div
  | mul
  | and
  | or
  | xor
  | increment
  | decrement
deriving DecidableEq, Repr

namespace Mnemonic

def all : List Mnemonic :=
  [.move, .exchange, .add, .sub, .div, .mul, .and, .or, .xor, .increment, .decrement]

def keyword : Mnemonic → String
  | .move => "MOV"
  | .exchange => "XCHG"
  | .add => "ADD"
  | .sub => "SUB"
  | .div => "DIV"
  | .mul => "MUL"
  | .and => "AND"
  | .or => "OR"
  | .xor => "XOR"
  | .increment => "INC"
  | .decrement => "DEC"

/-- The mnemonic with a given spelling, looked up among all of them. -/
def ofKeyword? (token : String) : Option Mnemonic := all.find? (·.keyword = token)

/-- The number of operands a mnemonic takes. -/
def arity : Mnemonic → Nat
  | .increment | .decrement => 1
  | _ => 2

/-- The binary operation behind a mnemonic, if it is one. -/
def binaryOp? : Mnemonic → Option BinaryOp
  | .add => some .add
  | .sub => some .sub
  | .div => some .div
  | .mul => some .mul
  | .and => some .and
  | .or => some .or
  | .xor => some .xor
  | .move | .exchange | .increment | .decrement => none

end Mnemonic

/-- One instruction. Operands are names as written; whether they are bound is found out when the
instruction is performed. -/
inductive Instruction where
  | declare (name : String) (width : Width) (literal : String)
  | binary (op : BinaryOp) (dest src : String)
  | move (dest src : String)
  | exchange (dest src : String)
  | increment (dest : String)
  | decrement (dest : String)
deriving DecidableEq, Repr

/-- The word by which an instruction is known: its width marker or its mnemonic. -/
def Instruction.keyword : Instruction → String
  | .declare _ width _ => width.keyword
  | .binary .add _ _ => "ADD"
  | .binary .sub _ _ => "SUB"
  | .binary .div _ _ => "DIV"
  | .binary .mul _ _ => "MUL"
  | .binary .and _ _ => "AND"
  | .binary .or _ _ => "OR"
  | .binary .xor _ _ => "XOR"
  | .move _ _ => "MOV"
  | .exchange _ _ => "XCHG"
  | .increment _ => "INC"
  | .decrement _ => "DEC"

theorem Width.ofKeyword?_keyword (width : Width) : ofKeyword? width.keyword = some width := by
  cases width <;> rfl

/-- A marker found under a spelling has that spelling. -/
theorem Width.keyword_of_ofKeyword? {token : String} {width : Width}
    (h : ofKeyword? token = some width) : width.keyword = token := by
  unfold ofKeyword? at h
  split at h <;> cases h <;> rfl

theorem Mnemonic.ofKeyword?_keyword (mnemonic : Mnemonic) :
    ofKeyword? mnemonic.keyword = some mnemonic := by
  cases mnemonic <;> decide

theorem Mnemonic.keyword_of_ofKeyword? {token : String} {mnemonic : Mnemonic}
    (h : ofKeyword? token = some mnemonic) : mnemonic.keyword = token := by
  simpa using List.find?_some h

end HexMachine
