import HexMachine.Instruction.Reader
import HexMachine.Machine.Basic

/-!
# Performing instructions

Each instruction checks its operands, writes its targets and dumps the store. The legacy decrement
is two increments in a row, each with a dump of its own.
-/

namespace HexMachine.Machine

/-- Stores a literal as it is written. The width marker does not matter. -/
def declare (machine : Machine) (name literal : String) : Outcome :=
  machine.attempt (validName name) fun _ => (machine.write name (.text literal)).dump

/-- The word a binary operation will store: both operands are looked up, then both are read. -/
def binaryResult (machine : Machine) (op : BinaryOp) (dest src : String) : Except Fault Word := do
  let (destText, srcText) ← machine.fetchPair dest src
  let lhs ← numeric destText
  let rhs ← numeric srcText
  match op.apply lhs rhs with
  | some word => .ok word
  | none => .error (.divisionByZero dest src)

def combine (machine : Machine) (op : BinaryOp) (dest src : String) : Outcome :=
  machine.attempt (machine.binaryResult op dest src) fun word =>
    (machine.write dest (.word word)).dump

/-- The texts of two operands that both stand for words. -/
def numericPair (machine : Machine) (dest src : String) : Except Fault (String × String) := do
  let (destText, srcText) ← machine.fetchPair dest src
  let _ ← numeric destText
  let _ ← numeric srcText
  return (destText, srcText)

/-- Copies the text of the source. The destination has to be bound already. -/
def move (machine : Machine) (dest src : String) : Outcome :=
  machine.attempt (do validName dest; machine.numericPair dest src) fun texts =>
    (machine.write dest (.text texts.2)).dump

def exchange (machine : Machine) (dest src : String) : Outcome :=
  machine.attempt (machine.numericPair dest src) fun texts =>
    ((machine.write dest (.text texts.2)).write src (.text texts.1)).dump

def wordAt (machine : Machine) (dest : String) : Except Fault Word := do
  let text ← machine.fetch .destination dest
  numeric text

def offset (machine : Machine) (dest : String) (delta : Word) : Outcome :=
  machine.attempt (machine.wordAt dest) fun word =>
    (machine.write dest (.word (word + delta))).dump

def increment (machine : Machine) (dest : String) : Outcome := machine.offset dest 1

/-- Decrements by the rule of the settings. -/
def decrement (machine : Machine) (dest : String) : Outcome :=
  match machine.settings.decrement with
  | .legacy => (machine.increment dest).andThen fun next => next.offset dest 1
  | .subtract => machine.offset dest (-1)

/-- Performs an instruction; the line counter stands still. -/
def perform (machine : Machine) : Instruction → Outcome
  | .declare name _ literal => machine.declare name literal
  | .binary op dest src => machine.combine op dest src
  | .move dest src => machine.move dest src
  | .exchange dest src => machine.exchange dest src
  | .increment dest => machine.increment dest
  | .decrement dest => machine.decrement dest

def nextLine (machine : Machine) : Machine := { machine with line := machine.line + 1 }

/-- Runs a line: it is counted whether or not it can be read and performed. -/
def execute (machine : Machine) (line : String) : Outcome :=
  match Instruction.ofLine line with
  | .ok instruction => machine.nextLine.perform instruction
  | .error fault => ⟨machine.nextLine, some fault⟩

end HexMachine.Machine
