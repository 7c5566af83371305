import HexMachine.Fault
import HexMachine.Name
import HexMachine.Settings
import HexMachine.Transcript
import HexMachine.Word.Reader

/-!
# The machine

A machine is a store with a transcript, a line counter and settings. This module has what every
instruction is made of: reading operands, which may fault and changes nothing, and writing and
dumping, which never fault.

Keys, lines, dumps let go and lines that succeeded are counted by natural numbers. A counter of 64
bits would do the same as long as there are fewer than 2^64 of each, and this is assumed throughout.
-/

namespace HexMachine

structure Machine where
  settings : Settings
  store : Store
  transcript : Transcript
  /-- The number of lines run so far. -/
  line : Nat
deriving DecidableEq, Repr

/-- What an instruction or a line leaves behind: the machine after it and the fault, if any. -/
structure Outcome where
  machine : Machine
  fault : Option Fault
deriving DecidableEq, Repr

namespace Machine

def fresh (settings : Settings) : Machine where
  settings := settings
  store := .empty
  transcript := .empty settings.dumpLimit
  line := 0

/-! ## Operands -/

def fetch (machine : Machine) (operand : Operand) (name : String) : Except Fault String :=
  match machine.store.get? name with
  | some text => .ok text
  | none => .error (.unknownRegister operand name)

/-- The texts of two operands; the destination is looked up first. -/
def fetchPair (machine : Machine) (dest src : String) : Except Fault (String × String) := do
  let destText ← machine.fetch .destination dest
  let srcText ← machine.fetch .source src
  return (destText, srcText)

def numeric (text : String) : Except Fault Word :=
  match Word.read text with
  | .ok word => .ok word
  | .error _ => .error (.notNumeric text)

/-- A name that may be declared. -/
def validName (name : String) : Except Fault Unit :=
  if Name.isValid name then .ok () else .error (.invalidName name)

/-! ## Effects -/

def write (machine : Machine) (name : String) (content : Content) : Machine :=
  { machine with store := machine.store.set name content }

/-- Records the entries of the store, if dumps are recorded. -/
def dump (machine : Machine) : Machine :=
  if machine.settings.recordDumps then
    { machine with
      transcript := machine.transcript.record ⟨machine.line, machine.store.entries⟩ }
  else machine

/-- Goes on with `effect` once `check` has passed; a fault leaves the machine as it is. -/
def attempt {α : Type} (machine : Machine) (check : Except Fault α) (effect : α → Machine) :
    Outcome :=
  match check with
  | .ok a => ⟨effect a, none⟩
  | .error fault => ⟨machine, some fault⟩

/-- An attempt that faults leaves the machine as it is. -/
theorem attempt_machine_of_fault {α : Type} {machine : Machine} {check : Except Fault α}
    {effect : α → Machine} {fault : Fault} (h : (machine.attempt check effect).fault = some fault) :
    (machine.attempt check effect).machine = machine := by
  cases check with
  | ok a => simp [attempt] at h
  | error f => rfl

end Machine

/-- Goes on with `next` unless there was a fault. -/
def Outcome.andThen (outcome : Outcome) (next : Machine → Outcome) : Outcome :=
  match outcome.fault with
  | none => next outcome.machine
  | some _ => outcome

end HexMachine
