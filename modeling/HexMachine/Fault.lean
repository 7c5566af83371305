import HexMachine.Instruction.Basic

/-!
# Faults

What can be wrong with a line or an instruction, as causes, and their wording. A fault never stops a
program: the line is reported and the next one is run.
-/

namespace HexMachine

inductive Operand where
  | destination
  | source
deriving DecidableEq, Repr

def Operand.label : Operand → String
  | .destination => "Destination"
  | .source => "Source"

/-- The cause for which a line or an instruction has no effect. -/
inductive Fault where
  | emptyLine
  | unrecognizedLine (line : String)
  | missingArguments (keyword : String) (expected got : Nat)
  | invalidName (name : String)
  | unknownRegister (operand : Operand) (name : String)
  | notNumeric (text : String)
  | divisionByZero (dest src : String)
  | unsupportedOperation (token : String)
deriving DecidableEq, Repr

/-- The wording of a fault, as fixed phrases and the texts they quote, in order. -/
def Fault.parts : Fault → List String
  | .emptyLine => ["Empty line"]
  | .unrecognizedLine line => ["Unsupported or unrecognized line: ", line]
  | .missingArguments keyword expected got =>
    [keyword, " requires ", expected.repr, " argument", if expected = 1 then "" else "s", ", got ",
      got.repr]
  | .invalidName name => ["Invalid variable name: ", name]
  | .unknownRegister operand name => [operand.label, " register not found: ", name]
  | .notNumeric text => ["Invalid numeric conversion: '", text, "'"]
  | .divisionByZero dest src => ["Division by zero: ", dest, " / ", src]
  | .unsupportedOperation token => ["Unsupported operation: ", token]

def Fault.message (fault : Fault) : String := String.join fault.parts

/-- The marker with a given spelling, or the fault that there is none. -/
def Width.ofKeyword (token : String) : Except Fault Width :=
  match Width.ofKeyword? token with
  | some width => .ok width
  | none => .error (.unsupportedOperation token)

/-- The mnemonic with a given spelling, or the fault that there is none. -/
def Mnemonic.ofKeyword (token : String) : Except Fault Mnemonic :=
  match Mnemonic.ofKeyword? token with
  | some mnemonic => .ok mnemonic
  | none => .error (.unsupportedOperation token)

end HexMachine
