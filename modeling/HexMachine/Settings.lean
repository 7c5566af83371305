/-!
# Settings

How a machine treats decrements, and what it keeps of its own history.
-/

namespace HexMachine

/-- What a decrement does: the legacy rule adds one twice, the other rule subtracts one. -/
inductive DecrementRule where
  | legacy
  | subtract
deriving DecidableEq, Repr

/-- The settings of a machine, fixed for its lifetime. -/
structure Settings where
  decrement : DecrementRule := .legacy
  recordDumps : Bool := true
  dumpLimit : Option Nat := none
deriving DecidableEq, Repr

end HexMachine
