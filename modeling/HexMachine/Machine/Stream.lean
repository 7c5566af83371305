import HexMachine.Console
import HexMachine.Machine.Batch

/-!
# Streaming

Lines are run in order, and after each one its dumps go to the out channel and its fault, if any, to
the err channel. The transcript is emptied by every line, whether or not the console takes its
dumps. The first refusal ends the run: the line it belongs to has been executed, the next has not.
-/

namespace HexMachine

/-- A line run for streaming: the machine after it with an empty transcript, the output lines to be
sent, and the fault. -/
structure Emission where
  machine : Machine
  output : List OutputLine
  fault : Option Fault

def Fault.report (fault : Fault) : OutputLine :=
  ⟨.err, "Error executing instruction: " :: fault.parts⟩

/-- Runs a line and takes its output off the transcript. -/
def Machine.emit (machine : Machine) (line : String) : Emission :=
  let outcome := machine.execute line
  let (dumps, transcript) := outcome.machine.transcript.drain
  { machine := { outcome.machine with transcript := transcript }
    output :=
      (dumps.flatMap Dump.lines).map (⟨.out, [·]⟩) ++ outcome.fault.toList.map Fault.report
    fault := outcome.fault }

/-- The writes that send the output of a line. -/
def Emission.writes (emission : Emission) : List Write :=
  emission.output.flatMap OutputLine.writes

structure Progress (σ : Type) where
  machine : Machine
  console : σ
  log : Array Write := #[]
  summary : Summary := {}

/-- The end of a streaming run: its last state, and the channel that refused a write, if one did. -/
structure Streamed (σ : Type) where
  progress : Progress σ
  refused : Option Channel

namespace Machine

/-- Streams lines from a given state on. -/
def streamFrom {σ : Type} (console : Console σ) (progress : Progress σ) :
    List String → Streamed σ
  | [] => ⟨progress, none⟩
  | line :: rest =>
    let emission := progress.machine.emit line
    let sent := console.send progress.console progress.log emission.writes
    let next : Progress σ :=
      { progress with machine := emission.machine, console := sent.state, log := sent.log }
    match sent.refused with
    | some channel => ⟨next, some channel⟩
    | none =>
      streamFrom console
        { next with summary := next.summary.note line emission.machine emission.fault } rest

def stream {σ : Type} (machine : Machine) (console : Console σ) (start : σ)
    (lines : List String) : Streamed σ :=
  streamFrom console { machine := machine, console := start } lines

end Machine

end HexMachine
