import HexMachine.Proofs.Machine.History

/-!
# Streaming prints line by line

The two channels of a console share one order. Main statement `stream_prints_line_by_line`: from
an empty transcript on, a machine that records without a limit streams its output in blocks, one for
each line and in the order of the lines. The block of a line without a fault is made of its dumps, all
for the out channel; that of a line with a fault is a single err line.

The step is `CaughtUp.emit`, one line streamed against the same line executed. What it carries along
is that no dump is left over from the lines before.
-/
namespace HexMachine

/-- How many dumps an instruction takes if it has no fault. -/
def Instruction.dumpCount (rule : DecrementRule) : Instruction → Nat
  | .decrement _ =>
    match rule with
    | .legacy => 2
    | .subtract => 1
  | _ => 1

theorem Fault.text_report (fault : Fault) :
    fault.report.text = "Error executing instruction: " ++ fault.message ++ "\n" := by
  rw [OutputLine.text, report, String.join_cons, message]

namespace Machine

/-! ## What is printed -/

/-- What a line prints: the err line for its fault, or else its dumps on the out channel. -/
def printed (machine : Machine) (line : String) : List OutputLine :=
  match (machine.execute line).fault with
  | some fault => [fault.report]
  | none => ((machine.due (.execute line)).flatMap Dump.lines).map (⟨.out, [·]⟩)

/-- What lines print when they are executed in order, as one block for each. -/
def blocks (machine : Machine) : List String → List (List OutputLine)
  | [] => []
  | line :: rest => machine.printed line :: blocks (machine.execute line).machine rest

theorem length_blocks (machine : Machine) (lines : List String) :
    (machine.blocks lines).length = lines.length := by
  induction lines generalizing machine with
  | nil => rfl
  | cons line rest ih => rw [blocks, List.length_cons, ih, List.length_cons]

/-- The block of a line is what it prints after the lines before it. -/
theorem getElem?_blocks (machine : Machine) (before : List String) (line : String)
    (later : List String) :
    (machine.blocks (before ++ line :: later))[before.length]? =
      some ((machine.obeyAll (before.map .execute)).printed line) := by
  induction before generalizing machine with
  | nil => rfl
  | cons first rest ih =>
    rw [List.cons_append, blocks, List.length_cons, List.getElem?_cons_succ, ih]
    rfl

/-! ## The dumps of a line -/

theorem due_of_fault {machine : Machine} {command : Command} {fault : Fault}
    (h : (machine.obey command).fault = some fault) : machine.due command = [] := by
  simp only [due, h]

theorem dumps_lineEffect (machine : Machine) (line : String) :
    (machine.lineEffect line).dumps = machine.due (.execute line) := by
  rw [lineEffect]
  cases hline : Instruction.ofLine line with
  | ok instruction => rw [due_execute_of_ok hline, dumps_effect]
  | error fault => rw [due_execute_of_error hline]

theorem length_due_perform {machine : Machine} {instruction : Instruction}
    (h : (machine.perform instruction).fault = none) :
    (machine.due (.perform instruction)).length =
      instruction.dumpCount machine.settings.decrement := by
  simp only [due, obey, h, Command.instruction?, Option.bind_some, halfway?]
  cases instruction <;> cases machine.settings.decrement <;> rfl

/-- A line without a fault owes two dumps if there is a legacy decrement on it, and one if there is
any other instruction. -/
theorem length_due_execute {machine : Machine} {line : String}
    (h : (machine.execute line).fault = none) :
    ∃ instruction, Instruction.ofLine line = .ok instruction ∧
      (machine.due (.execute line)).length = instruction.dumpCount machine.settings.decrement := by
  cases hline : Instruction.ofLine line with
  | error fault =>
    simp only [execute, hline] at h
    cases h
  | ok instruction =>
    simp only [execute, hline] at h
    refine ⟨instruction, rfl, ?_⟩
    rw [due_execute_of_ok hline]
    exact length_due_perform h

/-! ## One line -/

theorem Alike.printed_eq {a b : Machine} (h : a.Alike b) (line : String) :
    a.printed line = b.printed line := by
  rw [printed, printed, ← dumps_lineEffect, ← dumps_lineEffect, (h.execute line).1,
    h.lineEffect_eq line]

/-- A streaming machine that records without a limit and holds no dump, and a machine like it that
executes the same lines. -/
structure CaughtUp (streaming executing : Machine) : Prop where
  keeps : streaming.KeepsAll
  empty : streaming.transcript.held = []
  alike : streaming.Alike executing

namespace CaughtUp

variable {streaming executing : Machine}

/-- The dumps held after a line are those that it owes. -/
theorem held_execute (h : CaughtUp streaming executing) (line : String) :
    (streaming.execute line).machine.transcript.held = streaming.due (.execute line) := by
  have hkept : (Command.execute line).isKept = true := rfl
  have hheld := h.keeps.held_obey hkept
  rw [h.empty, List.nil_append] at hheld
  exact hheld

theorem output_emit (h : CaughtUp streaming executing) (line : String) :
    (streaming.emit line).output = executing.printed line := by
  rw [← h.alike.printed_eq, printed]
  simp only [Machine.emit, Transcript.drain, h.held_execute]
  cases hfault : (streaming.execute line).fault with
  | none => simp
  | some fault =>
    have hnone : streaming.due (.execute line) = [] := due_of_fault hfault
    rw [hnone]
    rfl

/-- **Step**: a line streamed leaves a machine like the one that executes it, and no dump. -/
theorem emit (h : CaughtUp streaming executing) (line : String) :
    CaughtUp (streaming.emit line).machine (executing.execute line).machine := by
  have hroom := hasRoom_of_unlimited h.keeps.unlimited 2
  have halike := (h.alike.execute line).2
  rw [execute_of_hasRoom hroom] at halike
  rw [emit_of_hasRoom hroom]
  exact ⟨⟨h.keeps.recording, h.keeps.unlimited⟩, rfl, halike.store, halike.line, halike.rule⟩

/-- **Run**: lines streamed add their blocks to the log. -/
theorem foldl_next {printout : Printout} (h : CaughtUp printout.machine executing)
    (lines : List String) :
    (lines.foldl Printout.next printout).log.toList =
        printout.log.toList ++ (executing.blocks lines).flatten.flatMap OutputLine.writes ∧
      CaughtUp (lines.foldl Printout.next printout).machine
        (executing.obeyAll (lines.map .execute)) := by
  induction lines generalizing printout executing with
  | nil => exact ⟨by simp [blocks], h⟩
  | cons line rest ih =>
    have hnext : CaughtUp (printout.next line).machine (executing.execute line).machine :=
      h.emit line
    have hlog : (printout.next line).log.toList =
        printout.log.toList ++ (executing.printed line).flatMap OutputLine.writes := by
      rw [Printout.next, Emission.writes, h.output_emit line, Array.toList_append]
    obtain ⟨hrest, hcaught⟩ := ih hnext
    refine ⟨?_, hcaught⟩
    rw [List.foldl_cons, hrest, hlog, blocks, List.flatten_cons, List.flatMap_append,
      List.append_assoc]

end CaughtUp

/-! ## Streaming -/

theorem stream_blocks {σ : Type} {console : Console σ} (hconsole : console.TakesAll) (start : σ)
    {machine : Machine} (hkeeps : machine.KeepsAll) (hempty : machine.transcript.held = [])
    (lines : List String) :
    (machine.stream console start lines).progress.log.toList =
        (machine.blocks lines).flatten.flatMap OutputLine.writes ∧
      CaughtUp (machine.stream console start lines).progress.machine
        (machine.obeyAll (lines.map .execute)) := by
  let nothing : Printout := ⟨machine, #[], {}⟩
  have hstart : CaughtUp nothing.machine machine := ⟨hkeeps, hempty, rfl, rfl, rfl⟩
  have hrun := hstart.foldl_next lines
  rw [← printout_stream hconsole start] at hrun
  exact hrun

/-- **`stream_prints_line_by_line`**: the log of both channels is made of one block for each line, in
order. If the line has a fault on the machine that streaming has reached, its block is the one err
line with the message of the fault. If it has none, its block is the dumps that it owes, all of them
for the out channel: two for a legacy decrement and one for any other instruction. -/
theorem stream_prints_line_by_line {σ : Type} (console : Console σ) (hconsole : console.TakesAll)
    (start : σ) (machine : Machine) (hkeeps : machine.KeepsAll)
    (hempty : machine.transcript.isEmpty = true) (lines : List String) :
    let streamed := machine.stream console start lines
    streamed.refused = none ∧
    streamed.progress.log.toList = (machine.blocks lines).flatten.flatMap OutputLine.writes ∧
    (machine.blocks lines).length = lines.length ∧
    ∀ before line later, lines = before ++ line :: later →
      let reached := (machine.stream console start before).progress.machine
      let dumps := (reached.execute line).machine.transcript.held
      ∃ block, (machine.blocks lines)[before.length]? = some block ∧
        (∀ fault, (reached.execute line).fault = some fault →
          block = [fault.report] ∧ fault.report.channel = .err ∧
          fault.report.text = "Error executing instruction: " ++ fault.message ++ "\n") ∧
        ((reached.execute line).fault = none →
          block = (dumps.flatMap Dump.lines).map (⟨.out, [·]⟩) ∧
          dumps = reached.due (.execute line) ∧
          ∃ instruction, Instruction.ofLine line = .ok instruction ∧
            dumps.length = instruction.dumpCount machine.settings.decrement) := by
  intro streamed
  have hheld := List.isEmpty_iff.1 hempty
  have hlog := (stream_blocks hconsole start hkeeps hheld lines).1
  refine ⟨refused_stream hconsole start machine lines, hlog, machine.length_blocks lines, ?_⟩
  rintro before line later rfl reached dumps
  have hcaught : CaughtUp reached _ := (stream_blocks hconsole start hkeeps hheld before).2
  have hdumps : dumps = reached.due (.execute line) := hcaught.held_execute line
  refine ⟨_, machine.getElem?_blocks before line later, ?_, ?_⟩
  · intro fault hfault
    refine ⟨?_, rfl, fault.text_report⟩
    rw [← hcaught.alike.printed_eq, printed, hfault]
  · intro hfault
    have hrule : reached.settings.decrement = machine.settings.decrement := by
      rw [hcaught.alike.rule, obeyAll_settings]
    obtain ⟨instruction, hline, hcount⟩ := length_due_execute hfault
    refine ⟨?_, hdumps, instruction, hline, ?_⟩
    · rw [← hcaught.alike.printed_eq, printed, hfault, hdumps]
    · rw [hdumps, hcount, hrule]

/-- A declaration, a line that cannot be read, a legacy decrement and an increment of an unbound
name, streamed to one log. -/
theorem stream_prints_line_by_line_decrement :
    let lines := ["A DB ff", "FOO", "DEC A", "INC B"]
    let streamed := (fresh {}).stream .unlimited () lines
    streamed.progress.log.toList =
      [⟨.out, ["Hex Key: 0x00001h Value: ff"]⟩,
        ⟨.err, ["Error executing instruction: ", "Unsupported or unrecognized line: ", "FOO"]⟩,
        ⟨.out, ["Hex Key: 0x00001h Value: 100"]⟩,
        ⟨.out, ["Hex Key: 0x00001h Value: 101"]⟩,
        ⟨.err, ["Error executing instruction: ", "Destination", " register not found: ", "B"]⟩
      ].flatMap OutputLine.writes ∧
    (Fault.unrecognizedLine "FOO").report.text =
      "Error executing instruction: Unsupported or unrecognized line: FOO\n" := by
  intro lines streamed
  have htakes : Console.unlimited.TakesAll := fun _ _ => rfl
  obtain ⟨-, hlog, -, hblocks⟩ := stream_prints_line_by_line .unlimited htakes () (fresh {})
    ⟨rfl, rfl⟩ rfl lines
  obtain ⟨block, -, hfault, -⟩ := hblocks ["A DB ff"] "FOO" ["DEC A", "INC B"] rfl
  refine ⟨?_, ?_⟩
  · rw [hlog]
    decide
  · rw [(hfault (.unrecognizedLine "FOO") (by decide)).2.2]
    decide

end Machine

end HexMachine
