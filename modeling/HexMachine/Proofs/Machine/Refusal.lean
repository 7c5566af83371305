import HexMachine.Proofs.Machine.Streaming

/-!
# Streaming to a console that refuses

A console may refuse a write in the middle of a line of output. By then the line of the program it
belongs to has been executed and its dumps are off the transcript, so it is settled what is lost:
the rest of that output, and nothing else. Main statement `refusal_loses_output_only`: a run that
was broken off leaves the machine of an unhindered run over the same lines up to that one, and a log
that is cut short within the output of the last of them.
-/
namespace HexMachine

section

variable {σ : Type} {console : Console σ}

/-- What becomes of the output of a line, sent from a given state on. -/
def Progress.sent (console : Console σ) (progress : Progress σ) (line : String) : Sent σ :=
  console.send progress.console progress.log (progress.machine.emit line).writes

/-- The state after a line, apart from its place in the summary. -/
def Progress.past (console : Console σ) (progress : Progress σ) (line : String) : Progress σ :=
  { progress with
    machine := (progress.machine.emit line).machine
    console := (progress.sent console line).state
    log := (progress.sent console line).log }

/-- The state after a line whose output was taken. -/
def Progress.next (console : Console σ) (progress : Progress σ) (line : String) : Progress σ :=
  { progress.past console line with
    summary := progress.summary.note line (progress.machine.emit line).machine
      (progress.machine.emit line).fault }

/-- The state of a streaming run, the console apart. -/
def Progress.printout (progress : Progress σ) : Printout :=
  ⟨progress.machine, progress.log, progress.summary⟩

namespace Machine

/-! ## One line -/

theorem streamFrom_cons_of_refused {progress : Progress σ} {line : String} {channel : Channel}
    (h : (progress.sent console line).refused = some channel) (rest : List String) :
    streamFrom console progress (line :: rest) = ⟨progress.past console line, some channel⟩ := by
  simp only [Progress.sent] at h
  simp only [streamFrom, Progress.past, Progress.sent, h]

theorem streamFrom_cons_of_taken {progress : Progress σ} {line : String}
    (h : (progress.sent console line).refused = none) (rest : List String) :
    streamFrom console progress (line :: rest) =
      streamFrom console (progress.next console line) rest := by
  simp only [Progress.sent] at h
  simp only [streamFrom, Progress.next, Progress.past, Progress.sent, h]

/-- A line whose output was taken is one more line of the printout. -/
theorem printout_next {progress : Progress σ} {line : String}
    (h : (progress.sent console line).refused = none) :
    (progress.next console line).printout = progress.printout.next line := by
  have hlog : (progress.sent console line).log =
      progress.log ++ (progress.machine.emit line).writes.toArray := Console.send_of_taken h
  simp only [Progress.printout, Progress.next, Progress.past, Printout.next, hlog]

end Machine

/-! ## Runs that are broken off -/

/-- A streaming run stopped within a line: the console took what was sent before the line and part
of its output, up to a write that it refuses. -/
structure StopsIn (console : Console σ) (before : Printout) (line : String)
    (streamed : Streamed σ) : Prop where
  machine : streamed.progress.machine = (before.machine.emit line).machine
  output : ∃ taken write unsent, (before.machine.emit line).writes = taken ++ write :: unsent ∧
    streamed.progress.log = before.log ++ taken.toArray ∧
    console.accept streamed.progress.console write = none ∧ streamed.refused = some write.channel

theorem Progress.past_stopsIn {progress : Progress σ} {line : String} {channel : Channel}
    (h : (progress.sent console line).refused = some channel) :
    StopsIn console progress.printout line ⟨progress.past console line, some channel⟩ := by
  obtain ⟨taken, write, unsent, hwrites, hlog, hnone, rfl⟩ := Console.send_of_refused h
  constructor
  · simp only [Progress.past, Progress.printout]
  · refine ⟨taken, write, unsent, hwrites, ?_, ?_, rfl⟩
    · simp only [Progress.past, Progress.sent, Progress.printout, hlog]
    · simp only [Progress.past, Progress.sent, hnone]

/-- A refusal belongs to one line, and no line after it has a part in the run. -/
theorem streamFrom_of_refused {lines : List String} {progress : Progress σ} {channel : Channel}
    (h : (Machine.streamFrom console progress lines).refused = some channel) :
    ∃ done line rest, lines = done ++ line :: rest ∧
      StopsIn console (done.foldl Printout.next progress.printout) line
        (Machine.streamFrom console progress lines) ∧
      ∀ others, Machine.streamFrom console progress (done ++ line :: others) =
        Machine.streamFrom console progress lines := by
  -- either the first line is the one, or its output was taken and the rest goes on from there
  induction lines generalizing progress with
  | nil => cases h
  | cons line rest ih =>
    cases hsent : (progress.sent console line).refused with
    | some c =>
      refine ⟨[], line, rest, rfl, ?_, fun others => ?_⟩
      · rw [Machine.streamFrom_cons_of_refused hsent]
        exact Progress.past_stopsIn hsent
      · rw [List.nil_append, Machine.streamFrom_cons_of_refused hsent,
          Machine.streamFrom_cons_of_refused hsent]
    | none =>
      rw [Machine.streamFrom_cons_of_taken hsent] at h ⊢
      obtain ⟨done, last, later, rfl, hstops, hothers⟩ := ih h
      rw [Machine.printout_next hsent] at hstops
      refine ⟨line :: done, last, later, rfl, hstops, fun others => ?_⟩
      rw [List.cons_append, Machine.streamFrom_cons_of_taken hsent, hothers]

theorem stream_of_refused {machine : Machine} {start : σ} {lines : List String} {channel : Channel}
    (h : (machine.stream console start lines).refused = some channel) :
    ∃ done line rest, lines = done ++ line :: rest ∧
      StopsIn console (done.foldl Printout.next ⟨machine, #[], {}⟩) line
        (machine.stream console start lines) ∧
      ∀ others, machine.stream console start (done ++ line :: others) =
        machine.stream console start lines :=
  streamFrom_of_refused h

/-- The log is cut within the output of the line: all that was sent before is in it, and it goes up
to the write that is refused. -/
theorem StopsIn.log {before : Printout} {line : String} {streamed : Streamed σ}
    (h : StopsIn console before line streamed) :
    before.log.toList <+: streamed.progress.log.toList ∧
    ∃ write unsent,
      (before.next line).log.toList = streamed.progress.log.toList ++ write :: unsent ∧
      write.text ≠ "" ∧ streamed.refused = some write.channel ∧
      console.accept streamed.progress.console write = none := by
  obtain ⟨taken, write, unsent, hwrites, hlog, hnone, hchannel⟩ := h.output
  refine ⟨?_, write, unsent, ?_, ?_, hchannel, hnone⟩
  · rw [hlog]
    simp
  · rw [hlog, Printout.next, hwrites]
    simp
  · have hmem : write ∈ (before.machine.emit line).writes := by simp [hwrites]
    obtain ⟨output, -, hwrite⟩ := List.mem_flatMap.1 hmem
    exact text_ne_empty_of_mem_writes hwrite

end

theorem printout_unlimited (machine : Machine) (lines : List String) :
    (machine.stream .unlimited () lines).progress.printout =
      lines.foldl Printout.next ⟨machine, #[], {}⟩ :=
  printout_stream (fun _ _ => rfl) () machine lines

/-- **`refusal_loses_output_only`**: if a write is refused, there is a line up to which the run
went. The machine is that of an unhindered run up to and with this line, its transcript is empty,
and the log is that of the unhindered run up to the refused write, which belongs to the output of
this line. The lines after it have no part in the run, whatever they are. -/
theorem refusal_loses_output_only {σ : Type} (console : Console σ) (start : σ) (machine : Machine)
    (lines : List String) (channel : Channel)
    (h : (machine.stream console start lines).refused = some channel) :
    let broken := (machine.stream console start lines).progress
    let free := fun count => (machine.stream .unlimited () (lines.take count)).progress
    ∃ count, 1 ≤ count ∧ count ≤ lines.length ∧
      broken.machine = (free count).machine ∧
      broken.machine.transcript.isEmpty = true ∧
      (free (count - 1)).log.toList <+: broken.log.toList ∧
      (∃ write unsent, (free count).log.toList = broken.log.toList ++ write :: unsent ∧
        write.text ≠ "" ∧ write.channel = channel ∧ console.accept broken.console write = none) ∧
      ∀ others, machine.stream console start (lines.take count ++ others) =
        machine.stream console start lines := by
  intro broken free
  obtain ⟨done, line, rest, hlines, hstops, hothers⟩ := stream_of_refused h
  obtain ⟨hwhole, write, unsent, hlog, htext, hchannel, hnone⟩ := hstops.log
  have htake : lines.take (done.length + 1) = done ++ [line] := by
    simp [hlines, List.take_append, List.take_of_length_le]
  have hlast : (free (done.length + 1)).printout =
      (done.foldl Printout.next ⟨machine, #[], {}⟩).next line := by
    rw [printout_unlimited, htake, List.foldl_concat]
  have hprevious : (free done.length).printout = done.foldl Printout.next ⟨machine, #[], {}⟩ := by
    rw [printout_unlimited, hlines, List.take_left]
  rw [← hlast] at hlog
  rw [← hprevious] at hwhole
  refine ⟨done.length + 1, by omega, by simp [hlines], ?_, ?_, hwhole, ?_, ?_⟩
  · exact hstops.machine.trans (congrArg Printout.machine hlast).symm
  · rw [show broken.machine = _ from hstops.machine]
    rfl
  · exact ⟨write, unsent, hlog, htext, Option.some.inj (hchannel.symm.trans h), hnone⟩
  · intro others
    rw [htake, List.append_assoc]
    exact hothers others

/-- The out channel is full after two lines, between the two dumps of a decrement; the last line,
which would have a fault, is not run. -/
theorem refusal_loses_output_only_decrement :
    let lines := ["A DB ff", "DEC A", "INC B"]
    let broken := ((Machine.fresh {}).stream (.limited (some 2) none) {} lines).progress
    let free := ((Machine.fresh {}).stream .unlimited () (lines.take 2)).progress
    broken.machine = free.machine ∧ broken.log.toList <+: free.log.toList ∧
      broken.log.toList.length < free.log.toList.length := by
  intro lines broken free
  obtain ⟨count, hpos, hlength, hmachine, -, -, ⟨write, unsent, hlog, -⟩, -⟩ :=
    refusal_loses_output_only (.limited (some 2) none) {} (Machine.fresh {}) lines .out (by decide)
  have hcount : count = 2 := by
    have hline : broken.machine.line = 2 := by decide
    rw [show broken.machine = _ from hmachine] at hline
    match count, hpos, (show count ≤ 3 from hlength) with
    | 1, _, _ => exact absurd hline (by decide)
    | 2, _, _ => rfl
    | 3, _, _ => exact absurd hline (by decide)
  subst hcount
  have hcut : free.log.toList = broken.log.toList ++ write :: unsent := hlog
  refine ⟨hmachine, ⟨write :: unsent, hcut.symm⟩, ?_⟩
  rw [hcut, List.length_append, List.length_cons]
  omega

end HexMachine
