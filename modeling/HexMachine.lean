import HexMachine.CommandLine.Input
import HexMachine.CommandLine.Request
import HexMachine.CommandLine.Response
import HexMachine.Console
import HexMachine.Fault
import HexMachine.Instruction.Basic
import HexMachine.Instruction.Reader
import HexMachine.Machine.Basic
import HexMachine.Machine.Batch
import HexMachine.Machine.Perform
import HexMachine.Machine.Stream
import HexMachine.Main
import HexMachine.Name
import HexMachine.Program
import HexMachine.Settings
import HexMachine.Store
import HexMachine.Table
import HexMachine.Text.Blank
import HexMachine.Text.Trailing
import HexMachine.Token
import HexMachine.Transcript
import HexMachine.Word.Basic
import HexMachine.Word.Printer
import HexMachine.Word.Reader
import HexMachine.Proofs.Token
import HexMachine.Proofs.Token.Runs
import HexMachine.Proofs.Instruction.Spelling
import HexMachine.Proofs.Instruction.Decision
import HexMachine.Proofs.Word.Numeral
import HexMachine.Proofs.Word.Residue
import HexMachine.Proofs.Store.Alignment
import HexMachine.Proofs.Store.Flat
import HexMachine.Proofs.Store.Gapless
import HexMachine.Proofs.Store.Issue
import HexMachine.Proofs.Transcript
import HexMachine.Proofs.Machine.Stages
import HexMachine.Proofs.Machine.Atomicity
import HexMachine.Proofs.Machine.Omission
import HexMachine.Proofs.Machine.Unsigned
import HexMachine.Proofs.Machine.Change
import HexMachine.Proofs.Machine.Accounting
import HexMachine.Proofs.Machine.Binding
import HexMachine.Proofs.Console
import HexMachine.Proofs.Machine.Streaming
import HexMachine.Proofs.Machine.Recording
import HexMachine.Proofs.Machine.History
import HexMachine.Proofs.Machine.Refusal
import HexMachine.Proofs.Machine.Replay
import HexMachine.Proofs.Machine.Writes
import HexMachine.Proofs.Machine.Congruence
import HexMachine.Proofs.Machine.Independence
import HexMachine.Proofs.Machine.Provenance
import HexMachine.Proofs.Machine.Interleaving
import HexMachine.Proofs.Machine.Renaming
import HexMachine.Proofs.Machine.Targets
import HexMachine.Proofs.Machine.Requirements
import HexMachine.Proofs.Machine.Exchange
import HexMachine.Proofs.Machine.Accumulation
import HexMachine.Proofs.CommandLine.Response
import HexMachine.Proofs.CommandLine.Arguments
import HexMachine.Proofs.KeyText
import HexMachine.Proofs.Word.Grammar
import HexMachine.Proofs.Word.Canonical
import HexMachine.Proofs.Word.Exact
import HexMachine.Proofs.Program.Lines
import HexMachine.Proofs.Program.Loading
import HexMachine.Proofs.Program.Layout
import HexMachine.Proofs.Program.LineEnds
import HexMachine.Proofs.Program.Blanks
