import HexMachine.Store

/-!
# The transcript

A dump is the list of entries at one moment, with the number of the line being run. The transcript
holds dumps, oldest first, up to an optional limit. Recording beyond the limit lets the oldest dumps
go and counts them; draining hands out what is held and keeps the count.
-/

namespace HexMachine

/-- The entries of a store at one moment. -/
structure Dump where
  line : Nat
  entries : List Entry
deriving DecidableEq, Repr

/-- The lines a dump is shown as. -/
def Dump.lines (dump : Dump) : List String := dump.entries.map showEntry

/-- A window on the dumps recorded so far. -/
structure Transcript where
  limit : Option Nat
  held : List Dump
  dropped : Nat
deriving DecidableEq, Repr

namespace Transcript

def empty (limit : Option Nat) : Transcript := ⟨limit, [], 0⟩

/-- Adds a dump. Under a limit the oldest dumps make room first, and under a limit of zero the new
dump itself is let go. -/
def record (transcript : Transcript) (dump : Dump) : Transcript :=
  match transcript.limit with
  | none => { transcript with held := transcript.held ++ [dump] }
  | some 0 => { transcript with dropped := transcript.dropped + 1 }
  | some (room + 1) =>
    let excess := transcript.held.length - room
    { transcript with
      held := transcript.held.drop excess ++ [dump]
      dropped := transcript.dropped + excess }

/-- Hands out the dumps held, oldest first. -/
def drain (transcript : Transcript) : List Dump × Transcript :=
  (transcript.held, { transcript with held := [] })

def last? (transcript : Transcript) : Option Dump := transcript.held.getLast?

def size (transcript : Transcript) : Nat := transcript.held.length

def isEmpty (transcript : Transcript) : Bool := transcript.held.isEmpty

def output (transcript : Transcript) : List String := transcript.held.flatMap Dump.lines

/-- Every dump recorded is held or counted as let go. -/
theorem size_record_add_dropped (transcript : Transcript) (dump : Dump) :
    (transcript.record dump).size + (transcript.record dump).dropped =
      transcript.size + transcript.dropped + 1 := by
  unfold record size
  split
  · simp; omega
  · simp only; omega
  · simp only [List.length_append, List.length_drop, List.length_singleton]; omega

end Transcript

end HexMachine
