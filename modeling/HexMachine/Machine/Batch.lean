import HexMachine.Machine.Perform

/-!
# Running a list of lines

Lines are run in order; a line that faults is noted with its number and its text, and the next one
is run.
-/

namespace HexMachine

structure Failure where
  line : Nat
  text : String
  fault : Fault
deriving DecidableEq, Repr

/-- What became of a list of lines. -/
structure Summary where
  succeeded : Nat := 0
  failures : Array Failure := #[]
deriving DecidableEq, Repr

namespace Summary

def total (summary : Summary) : Nat := summary.succeeded + summary.failures.size

def isClean (summary : Summary) : Bool := summary.failures.isEmpty

/-- Adds the outcome of one line, whose number is on the machine after it. -/
def note (summary : Summary) (text : String) (after : Machine) : Option Fault → Summary
  | none => { summary with succeeded := summary.succeeded + 1 }
  | some fault => { summary with failures := summary.failures.push ⟨after.line, text, fault⟩ }

end Summary

namespace Machine

/-- Runs one more line and adds its outcome to the summary. -/
def runLine (state : Summary × Machine) (line : String) : Summary × Machine :=
  let outcome := state.2.execute line
  (state.1.note line outcome.machine outcome.fault, outcome.machine)

def run (machine : Machine) (lines : List String) : Summary × Machine :=
  lines.foldl runLine ({}, machine)

end Machine

end HexMachine
