import HexMachine.Fault
import HexMachine.Token

/-!
# Reading instructions

A line is read by its tokens. A width marker in second place makes it a declaration whatever stands
first; otherwise the first token is looked up as a mnemonic. Tokens beyond the operands are ignored.
-/

namespace HexMachine

/-- The instruction a mnemonic forms with its operands; absent if their number is not the
mnemonic's arity, or if there is no operation behind the mnemonic. -/
def Mnemonic.instruction? : Mnemonic → List String → Option Instruction
  | .move, [dest, src] => some (.move dest src)
  | .exchange, [dest, src] => some (.exchange dest src)
  | .increment, [dest] => some (.increment dest)
  | .decrement, [dest] => some (.decrement dest)
  | mnemonic, [dest, src] => mnemonic.binaryOp?.map fun op => .binary op dest src
  | _, _ => none

namespace Instruction

/-- The first `arity` operands, or the fault that there are too few. -/
def takeOperands (keyword : String) (arity : Nat) (operands : List String) :
    Except Fault (List String) :=
  if operands.length < arity then .error (.missingArguments keyword arity operands.length)
  else .ok (operands.take arity)

/-- Reads a declaration of `name` from the tokens after it, the first of which is the marker. -/
def ofDeclaration (name : String) (width : Width) (rest : List String) :
    Except Fault Instruction :=
  match rest with
  | _ :: literal :: _ => .ok (.declare name width literal)
  | _ => .error (.missingArguments width.keyword 2 rest.length)

/-- Reads an operation from its first token and the tokens after it; `line` is quoted if the first
token is no mnemonic. -/
def ofOperation (first : String) (rest : List String) (line : String) :
    Except Fault Instruction :=
  match Mnemonic.ofKeyword? first with
  | none => .error (.unrecognizedLine line)
  | some mnemonic =>
    match takeOperands mnemonic.keyword mnemonic.arity rest with
    | .error fault => .error fault
    | .ok operands =>
      match mnemonic.instruction? operands with
      | some instruction => .ok instruction
      | none => .error (.unsupportedOperation first)

def ofTokens (tokens : List String) (line : String) : Except Fault Instruction :=
  match tokens with
  | [] => .error .emptyLine
  | first :: rest =>
    match rest.head?.bind Width.ofKeyword? with
    | some width => ofDeclaration first width rest
    | none => ofOperation first rest line

def ofLine (line : String) : Except Fault Instruction := ofTokens (Token.ofLine line) line

end Instruction

end HexMachine
