import HexMachine.Machine.Stream
import HexMachine.Proofs.Console
import HexMachine.Proofs.Machine.Stages
import HexMachine.Proofs.Transcript

/-!
# Streaming against running

`run` leaves all dumps in the transcript, `stream` hands them to a console line by line. Both take
the same effects over, since effects do not depend on the transcript; what differs is where the
dumps are in the end. Main statement `stream_agrees_with_run`: to a console that refuses nothing,
streaming prints what running would have recorded.

The dumps of one line are at most two. So a transcript that is emptied after every line needs a
limit of no more than two to let none of them go.
-/
namespace HexMachine

/-! ## Recording with room to spare -/

namespace Transcript

theorem recordAll_of_hasRoom {dumps : List Dump} {transcript : Transcript}
    (h : transcript.HasRoom dumps.length) :
    transcript.recordAll dumps = { transcript with held := transcript.held ++ dumps } := by
  induction dumps generalizing transcript with
  | nil => simp [recordAll]
  | cons dump rest ih =>
    have hfirst : transcript.HasRoom 1 := by
      intro limit hlimit
      have := h limit hlimit
      simp only [List.length_cons] at this
      omega
    have hrest : HasRoom { transcript with held := transcript.held ++ [dump] } rest.length := by
      intro limit hlimit
      have := h limit hlimit
      simp only [List.length_cons, List.length_append, List.length_nil] at this ⊢
      omega
    have hstep : transcript.recordAll (dump :: rest) = (transcript.record dump).recordAll rest := rfl
    rw [hstep, record_of_hasRoom hfirst, ih hrest]
    simp

/-- The output of a transcript as one text, every line with its newline. -/
def text (transcript : Transcript) : String := String.join (transcript.output.map (· ++ "\n"))

end Transcript

/-- The text of a list of dumps. -/
def dumpText (dumps : List Dump) : String :=
  String.join ((dumps.flatMap Dump.lines).map (· ++ "\n"))

theorem Transcript.text_eq (transcript : Transcript) : transcript.text = dumpText transcript.held :=
  rfl

@[simp] theorem dumpText_nil : dumpText [] = "" := rfl

theorem dumpText_append (first second : List Dump) :
    dumpText (first ++ second) = dumpText first ++ dumpText second := by
  simp [dumpText]

/-! ## One line -/

namespace Machine

/-- A line executed with room for its dumps: they come after those already held. -/
theorem execute_of_hasRoom {machine : Machine} (hroom : machine.transcript.HasRoom 2)
    (line : String) :
    machine.execute line =
      ⟨{ machine with
          line := machine.line + 1
          store := (machine.lineEffect line).store
          transcript :=
            { machine.transcript with
              held := machine.transcript.held ++
                machine.recorded (machine.lineEffect line).dumps } },
        (machine.lineEffect line).fault⟩ := by
  have hlength : (machine.recorded (machine.lineEffect line).dumps).length ≤ 2 := by
    have hdumps := machine.length_dumps_le line
    unfold recorded
    split
    · exact hdumps
    · exact Nat.zero_le 2
  have hall : machine.transcript.HasRoom (machine.recorded (machine.lineEffect line).dumps).length := by
    intro limit hlimit
    have := hroom limit hlimit
    omega
  rw [execute_eq, ← Transcript.recordAll_of_hasRoom hall]
  rfl

/-- A streamed line with room for its dumps: it sends those held before it and its own, then its
fault, and leaves none behind. -/
theorem emit_of_hasRoom {machine : Machine} (hroom : machine.transcript.HasRoom 2)
    (line : String) :
    machine.emit line =
      { machine :=
          { machine with
            line := machine.line + 1
            store := (machine.lineEffect line).store
            transcript := { machine.transcript with held := [] } }
        output :=
          ((machine.transcript.held ++ machine.recorded (machine.lineEffect line).dumps).flatMap
            Dump.lines).map (⟨.out, [·]⟩) ++
          (machine.lineEffect line).fault.toList.map Fault.report
        fault := (machine.lineEffect line).fault } := by
  rw [emit, execute_of_hasRoom hroom]
  rfl

/-- Of lines for both channels, either channel shows its own. -/
theorem textOn_output (lines : List String) (faults : List Fault) :
    let output := lines.map (fun text => (⟨.out, [text]⟩ : OutputLine)) ++ faults.map Fault.report
    textOn .out (output.flatMap OutputLine.writes).toArray = String.join (lines.map (· ++ "\n")) ∧
    textOn .err (output.flatMap OutputLine.writes).toArray =
      String.join (faults.map fun fault => fault.report.text) := by
  intro output
  have hout : ∀ line ∈ lines.map (fun text => (⟨.out, [text]⟩ : OutputLine)), line.channel = .out := by
    simp
  have herr : ∀ line ∈ faults.map Fault.report, line.channel = .err := by simp [Fault.report]
  simp only [output, List.flatMap_append, ← List.append_toArray, textOn_append]
  constructor
  · rw [textOn_of_channel hout, textOn_of_other_channel fun line hline => by simp [herr line hline]]
    simp [OutputLine.text, Function.comp_def]
  · rw [textOn_of_channel herr, textOn_of_other_channel fun line hline => by simp [hout line hline]]
    simp [Function.comp_def]

/-- Of a streamed line the dumps go out; its fault does not. -/
theorem textOn_out_emit {machine : Machine} (hroom : machine.transcript.HasRoom 2)
    (line : String) :
    textOn .out (machine.emit line).writes.toArray =
      dumpText (machine.transcript.held ++ machine.recorded (machine.lineEffect line).dumps) := by
  rw [emit_of_hasRoom hroom]
  exact (textOn_output _ _).1

/-- Of a streamed line the fault is reported; its dumps are not, however many there are. -/
theorem textOn_err_emit (machine : Machine) (line : String) :
    textOn .err (machine.emit line).writes.toArray =
      String.join ((machine.execute line).fault.toList.map fun fault => fault.report.text) :=
  (textOn_output _ _).2

/-- Machines that are alike are still alike after streaming a line, whatever they hold. -/
theorem Alike.emit {a b : Machine} (h : a.Alike b) (line : String) :
    (a.emit line).fault = (b.emit line).fault ∧
      (a.emit line).machine.Alike (b.emit line).machine := by
  obtain ⟨hfault, hnext⟩ := h.execute line
  simp only [Machine.emit]
  exact ⟨hfault, hnext.store, hnext.line, hnext.rule⟩

theorem recorded_congr {a b : Machine} (h : a.settings.recordDumps = b.settings.recordDumps) :
    a.recorded = b.recorded := by
  funext dumps
  rw [recorded, recorded, h]

end Machine

/-! ## Streaming without a refusal -/

/-- What a streaming run has come to, the console apart. -/
structure Printout where
  machine : Machine
  log : Array Write := #[]
  summary : Summary := {}

/-- Streams one more line, all of whose output is taken. -/
def Printout.next (printout : Printout) (line : String) : Printout :=
  let emission := printout.machine.emit line
  { machine := emission.machine
    log := printout.log ++ emission.writes.toArray
    summary := printout.summary.note line emission.machine emission.fault }

/-- The end of a streaming run, the console apart. -/
def Streamed.printout {σ : Type} (streamed : Streamed σ) : Printout :=
  ⟨streamed.progress.machine, streamed.progress.log, streamed.progress.summary⟩

theorem streamFrom_of_takesAll {σ : Type} {console : Console σ} (h : console.TakesAll)
    (lines : List String) (progress : Progress σ) :
    (Machine.streamFrom console progress lines).refused = none ∧
      (Machine.streamFrom console progress lines).printout =
        lines.foldl Printout.next ⟨progress.machine, progress.log, progress.summary⟩ := by
  induction lines generalizing progress with
  | nil => exact ⟨rfl, rfl⟩
  | cons line rest ih =>
    obtain ⟨hlog, hrefused⟩ := Console.send_of_takesAll h progress.console progress.log
      (progress.machine.emit line).writes
    rw [List.foldl_cons, Printout.next]
    simp only [Machine.streamFrom, hrefused]
    -- abstract first: the sent lines must not be evaluated to compare the two sides
    generalize console.send progress.console progress.log _ = sent at hlog ⊢
    have hnext := ih ⟨(progress.machine.emit line).machine, sent.state, sent.log,
      progress.summary.note line (progress.machine.emit line).machine
        (progress.machine.emit line).fault⟩
    rw [hlog] at hnext ⊢
    exact hnext

theorem printout_stream {σ : Type} {console : Console σ} (h : console.TakesAll) (start : σ)
    (machine : Machine) (lines : List String) :
    (machine.stream console start lines).printout =
      lines.foldl Printout.next ⟨machine, #[], {}⟩ :=
  (streamFrom_of_takesAll h lines ⟨machine, start, #[], {}⟩).2

theorem refused_stream {σ : Type} {console : Console σ} (h : console.TakesAll) (start : σ)
    (machine : Machine) (lines : List String) :
    (machine.stream console start lines).refused = none :=
  (streamFrom_of_takesAll h lines ⟨machine, start, #[], {}⟩).1

/-- Whatever the limit, the last line leaves no dump behind. -/
theorem held_foldl_next {lines : List String} (h : lines ≠ []) (printout : Printout) :
    (lines.foldl Printout.next printout).machine.transcript.held = [] := by
  rw [← List.dropLast_append_getLast h, List.foldl_append]
  rfl

/-! ## Printing what running records -/

/-- What is noted of a line is its fault and the count of lines. -/
theorem Summary.note_congr (summary : Summary) (line : String) {a b : Machine}
    (h : a.line = b.line) (fault : Option Fault) :
    summary.note line a fault = summary.note line b fault := by
  cases fault with
  | none => rfl
  | some fault => simp only [note, h]

theorem hasRoom_of_unlimited {transcript : Transcript} (h : transcript.limit = none) (count : Nat) :
    transcript.HasRoom count := by
  intro limit hlimit
  rw [h] at hlimit
  cases hlimit

/-- A streaming run and a plain run without a limit stand at the same point: what is printed and what
is still held make up what the other holds. -/
structure InStep (printout : Printout) (state : Summary × Machine) : Prop where
  summary : printout.summary = state.1
  alike : printout.machine.Alike state.2
  recording : printout.machine.settings.recordDumps = state.2.settings.recordDumps
  streamed_unlimited : printout.machine.transcript.limit = none
  run_unlimited : state.2.transcript.limit = none
  text : textOn .out printout.log ++ printout.machine.transcript.text = state.2.transcript.text

theorem InStep.next {printout : Printout} {state : Summary × Machine} (h : InStep printout state)
    (line : String) : InStep (printout.next line) (Machine.runLine state line) := by
  have hroom := hasRoom_of_unlimited h.streamed_unlimited 2
  have hprinted := Machine.textOn_out_emit hroom line
  have heffect := h.alike.lineEffect_eq line
  have hdumps := Machine.recorded_congr h.recording
  rw [Machine.runLine, Machine.execute_of_hasRoom (hasRoom_of_unlimited h.run_unlimited 2) line,
    ← heffect, ← hdumps]
  rw [Printout.next]
  rw [Machine.emit_of_hasRoom hroom] at hprinted ⊢
  refine ⟨?_, ⟨rfl, ?_, h.alike.rule⟩, h.recording, h.streamed_unlimited, h.run_unlimited, ?_⟩
  · rw [h.summary]
    exact state.1.note_congr line (congrArg (· + 1) h.alike.line) _
  · show printout.machine.line + 1 = state.2.line + 1
    rw [h.alike.line]
  · -- the line sends what was held before it and its own dumps, so nothing is left to be added
    have hbefore := h.text
    rw [Transcript.text_eq, Transcript.text_eq] at hbefore
    simp only [Transcript.text_eq, textOn_append, hprinted, dumpText_append, dumpText_nil,
      String.append_empty]
    rw [← String.append_assoc, hbefore]

theorem InStep.foldl {printout : Printout} {state : Summary × Machine} (h : InStep printout state)
    (lines : List String) :
    InStep (lines.foldl Printout.next printout) (lines.foldl Machine.runLine state) := by
  induction lines generalizing printout state with
  | nil => exact h
  | cons line rest ih => exact ih (h.next line)

/-! ## Printing under a limit -/

/-- The machine with the limit on dumps taken away. -/
def Machine.unlimited (machine : Machine) : Machine :=
  { machine with
    settings := { machine.settings with dumpLimit := none }
    transcript := { machine.transcript with limit := none } }

/-- A streaming run under a limit and one without stand at the same point, and nothing was let go. -/
structure SamePrint (limit dropped : Nat) (limited free : Printout) : Prop where
  log : limited.log = free.log
  alike : limited.machine.Alike free.machine
  recording : limited.machine.settings.recordDumps = free.machine.settings.recordDumps
  transcript : limited.machine.transcript = ⟨some limit, [], dropped⟩
  free_unlimited : free.machine.transcript.limit = none
  free_held : free.machine.transcript.held = []

theorem SamePrint.next {limit dropped : Nat} (htwo : 2 ≤ limit) {limited free : Printout}
    (h : SamePrint limit dropped limited free) (line : String) :
    SamePrint limit dropped (limited.next line) (free.next line) := by
  have hroom : limited.machine.transcript.HasRoom 2 := by
    intro n hn
    rw [h.transcript] at hn ⊢
    cases hn
    simpa using htwo
  have hfree := hasRoom_of_unlimited h.free_unlimited 2
  have halike := (h.alike.emit line).2
  have hheld : limited.machine.transcript.held = free.machine.transcript.held := by
    rw [h.transcript, h.free_held]
  have hdumps := Machine.recorded_congr h.recording
  have heffect := h.alike.lineEffect_eq line
  rw [Printout.next, Printout.next]
  rw [Machine.emit_of_hasRoom hroom, Machine.emit_of_hasRoom hfree] at halike ⊢
  refine ⟨?_, halike, h.recording, ?_, h.free_unlimited, rfl⟩
  · simp only [Emission.writes, h.log, hheld, hdumps, heffect]
  · show ({ limited.machine.transcript with held := [] } : Transcript) = _
    rw [h.transcript]

theorem SamePrint.foldl {limit dropped : Nat} (htwo : 2 ≤ limit) {limited free : Printout}
    (h : SamePrint limit dropped limited free) (lines : List String) :
    SamePrint limit dropped (lines.foldl Printout.next limited) (lines.foldl Printout.next free) := by
  induction lines generalizing limited free with
  | nil => exact h
  | cons line rest ih => exact ih (h.next htwo line)

/-! ## Both together -/

section

variable {σ : Type} {console : Console σ} (hconsole : console.TakesAll) (start : σ)
  {machine : Machine} (lines : List String)
include hconsole

theorem stream_inStep_run (hlimit : machine.transcript.limit = none) :
    InStep (machine.stream console start lines).printout (machine.run lines) := by
  have hstart : InStep ⟨machine, #[], {}⟩ ({}, machine) :=
    ⟨rfl, ⟨rfl, rfl, rfl⟩, rfl, hlimit, hlimit, String.empty_append⟩
  rw [printout_stream hconsole]
  exact hstart.foldl lines

theorem stream_samePrint_unlimited {limit : Nat} (htwo : 2 ≤ limit)
    (hlimit : machine.transcript.limit = some limit) (hheld : machine.transcript.held = []) :
    SamePrint limit machine.transcript.dropped (machine.stream console start lines).printout
      (machine.unlimited.stream console start lines).printout := by
  have hstart : SamePrint limit machine.transcript.dropped
      ⟨machine, #[], {}⟩ ⟨machine.unlimited, #[], {}⟩ := by
    refine ⟨rfl, ⟨rfl, rfl, rfl⟩, rfl, ?_, rfl, hheld⟩
    show machine.transcript = _
    rw [← hlimit, ← hheld]
  rw [printout_stream hconsole, printout_stream hconsole]
  exact hstart.foldl htwo lines

end

/-- **`stream_agrees_with_run`**: a console that takes everything is told what running records.
Without a limit on dumps the summary, the store and the line count are those of `run`, and the text
sent out with the text still held is what `run` holds; nothing is held after a line was streamed.
Under a limit of two or more, from an empty transcript, the text sent out is the same as without
one, and no dump is let go. -/
theorem stream_agrees_with_run {σ : Type} (console : Console σ) (hconsole : console.TakesAll)
    (start : σ) (machine : Machine) (lines : List String) :
    (machine.transcript.limit = none →
      (machine.stream console start lines).refused = none ∧
      (machine.stream console start lines).progress.summary = (machine.run lines).1 ∧
      (machine.stream console start lines).progress.machine.store = (machine.run lines).2.store ∧
      (machine.stream console start lines).progress.machine.line = (machine.run lines).2.line ∧
      textOn .out (machine.stream console start lines).progress.log ++
          (machine.stream console start lines).progress.machine.transcript.text =
        (machine.run lines).2.transcript.text ∧
      (lines ≠ [] →
        (machine.stream console start lines).progress.machine.transcript.isEmpty = true)) ∧
    (∀ limit, 2 ≤ limit → machine.transcript.limit = some limit →
      machine.transcript.isEmpty = true →
      textOn .out (machine.stream console start lines).progress.log =
        textOn .out (machine.unlimited.stream console start lines).progress.log ∧
      (machine.stream console start lines).progress.machine.transcript.dropped =
        machine.transcript.dropped) := by
  refine ⟨?_, ?_⟩
  · intro hlimit
    have hstep := stream_inStep_run hconsole start lines hlimit
    have htaken := (streamFrom_of_takesAll hconsole lines ⟨machine, start, #[], {}⟩).1
    refine ⟨htaken, hstep.summary, hstep.alike.store, hstep.alike.line, hstep.text, ?_⟩
    intro hlines
    have hheld := held_foldl_next hlines ⟨machine, #[], {}⟩
    rw [← printout_stream hconsole start] at hheld
    exact List.isEmpty_iff.2 hheld
  · intro limit htwo hlimit hempty
    have hsame := stream_samePrint_unlimited hconsole start lines htwo hlimit
      (List.isEmpty_iff.1 hempty)
    have hdropped := congrArg Transcript.dropped hsame.transcript
    exact ⟨congrArg (textOn .out) hsame.log, hdropped⟩

/-- A machine that holds a dump streams a legacy decrement and a line that faults; a limit of two is
enough for the same lines. -/
theorem stream_agrees_with_run_decrement :
    let machine := ((Machine.fresh {}).execute "A DB ff").machine
    let limited := Machine.fresh { dumpLimit := some 2 }
    (machine.transcript.held.length = 1 ∧
      textOn .out (machine.stream .unlimited () ["DEC A", "INC B"]).progress.log =
        (machine.run ["DEC A", "INC B"]).2.transcript.text) ∧
    (limited.stream .unlimited () ["A DB ff", "DEC A"]).progress.machine.transcript.dropped = 0 := by
  have htakes : Console.unlimited.TakesAll := fun _ _ => rfl
  intro machine limited
  have hrun := (stream_agrees_with_run .unlimited htakes () machine ["DEC A", "INC B"]).1 (by decide)
  have hlimited := (stream_agrees_with_run .unlimited htakes () limited ["A DB ff", "DEC A"]).2 2
    (by decide) (by decide) (by decide)
  refine ⟨⟨by decide, ?_⟩, hlimited.2⟩
  have hempty := List.isEmpty_iff.1 (hrun.2.2.2.2.2 (by decide))
  have htext := hrun.2.2.2.2.1
  rw [Transcript.text_eq, hempty, dumpText_nil, String.append_empty] at htext
  exact htext

end HexMachine
