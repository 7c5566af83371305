import HexMachine.CommandLine.Response
import HexMachine.Proofs.Machine.Interleaving
import HexMachine.Proofs.Machine.Recording

/-!
# The command line from end to end

Main statement `response_matches_run`: for arguments that do not end the reading, the response is what
loading the input and running it come to. If there is no program, that is the load error and an exit
code of one. If there is one, standard output is the text of all dumps that a fresh machine records
in running it, standard error has a report for each line that failed, and the exit code is zero. To
be quiet takes the dumps away and nothing else.

On the way are the arguments, which come to a set of options in whatever order they are given; the
reports of a streaming run, which are those of its summary; and a quiet machine, whose transcript
stays as it is.
-/
namespace HexMachine

/-! ## Reports -/

/-- The err text for a summary: the reports of all failures, in order. -/
def Summary.reports (summary : Summary) : String :=
  String.join (summary.failures.toList.map fun failure => failure.fault.report.text)

theorem Summary.reports_note (summary : Summary) (text : String) (after : Machine)
    (fault : Option Fault) :
    (summary.note text after fault).reports =
      summary.reports ++ String.join (fault.toList.map fun fault => fault.report.text) := by
  cases fault with
  | none => simp [note, reports]
  | some fault => simp [note, reports]

/-- What has been sent to the err channel is the reports of the summary. -/
def Printout.HasReported (printout : Printout) : Prop :=
  textOn .err printout.log = printout.summary.reports

theorem Printout.HasReported.next {printout : Printout} (h : printout.HasReported) (line : String) :
    (printout.next line).HasReported := by
  have hreport := Machine.textOn_err_emit printout.machine line
  simp only [HasReported, Printout.next, textOn_append, Summary.reports_note, hreport,
    Machine.emit_fault]
  rw [h]

theorem Printout.HasReported.foldl {printout : Printout} (h : printout.HasReported)
    (lines : List String) : (lines.foldl Printout.next printout).HasReported := by
  induction lines generalizing printout with
  | nil => exact h
  | cons line rest ih => exact ih (h.next line)

namespace Machine

/-- A fresh machine streams what it would have recorded, and reports what failed. -/
theorem stream_fresh {settings : Settings} (hlimit : settings.dumpLimit = none)
    (lines : List String) :
    let log := ((fresh settings).stream .unlimited () lines).progress.log
    textOn .out log = ((fresh settings).run lines).2.transcript.text ∧
      textOn .err log = ((fresh settings).run lines).1.reports := by
  intro log
  have htakes : Console.unlimited.TakesAll := fun _ _ => rfl
  have hprintout := printout_stream htakes () (fresh settings) lines
  have hstep : InStep ((fresh settings).stream .unlimited () lines).printout
      ((fresh settings).run lines) := stream_inStep_run htakes () lines hlimit
  constructor
  · -- from the start and after every line no dump is held, so all of them have been sent
    have hheld : (lines.foldl Printout.next ⟨fresh settings, #[], {}⟩).machine.transcript.held = [] := by
      by_cases hlines : lines = []
      · rw [hlines]
        rfl
      · exact held_foldl_next hlines _
    have htext := hstep.text
    rw [Transcript.text_eq, hprintout, hheld, dumpText_nil, String.append_empty, ← hprintout] at htext
    exact htext
  · have hstart : Printout.HasReported ⟨fresh settings, #[], {}⟩ := rfl
    have hreported := hstart.foldl lines
    rw [← hprintout, Printout.HasReported, hstep.summary] at hreported
    exact hreported

/-! ## Quiet machines -/

theorem transcript_execute_of_quiet {machine : Machine} (h : machine.settings.recordDumps = false)
    (line : String) : (machine.execute line).machine.transcript = machine.transcript := by
  have hnone : machine.nextLine.recorded (machine.lineEffect line).dumps = [] := by
    rw [recorded]
    exact if_neg (by simp [nextLine, h])
  rw [execute_eq]
  simp only [absorb, hnone]
  rfl

theorem transcript_run_of_quiet {machine : Machine} (h : machine.settings.recordDumps = false)
    (lines : List String) : (machine.run lines).2.transcript = machine.transcript := by
  suffices ∀ state : Summary × Machine, state.2.settings.recordDumps = false →
      (lines.foldl runLine state).2.transcript = state.2.transcript from this ({}, machine) h
  induction lines with
  | nil =>
    intro state _
    rfl
  | cons line rest ih =>
    intro state hquiet
    have hnext := ih (runLine state line) (by simp [runLine, hquiet])
    rw [List.foldl_cons, hnext]
    exact transcript_execute_of_quiet hquiet line

end Machine

namespace CommandLine

/-! ## Arguments -/

/-- The argument ends the reading: it calls for help, or it has the form of an option and is none. -/
def EndsReading (argument : String) : Prop :=
  argument = "--help" ∨ argument = "-h" ∨
    isOption argument = true ∧ argument ≠ "--quiet" ∧ argument ≠ "--true-dec"

instance : DecidablePred EndsReading := fun _ => inferInstanceAs (Decidable (_ ∨ _ ∨ _))

/-- The arguments that have not the form of an option, in order. -/
def positional (arguments : List String) : List String := arguments.filter (!isOption ·)

/-- The options that arguments select if none of them ends the reading. -/
def selected (arguments : List String) : Options where
  quiet := "--quiet" ∈ arguments
  trueDecrement := "--true-dec" ∈ arguments
  file := (positional arguments).getLast?

/-- Options together with others selected later: what one of them sets is set, and the later file
counts. -/
def Options.followedBy (options later : Options) : Options where
  quiet := options.quiet || later.quiet
  trueDecrement := options.trueDecrement || later.trueDecrement
  file := later.file.or options.file

theorem Options.followedBy_selected (options : Options) (first second : List String) :
    (options.followedBy (selected first)).followedBy (selected second) =
      options.followedBy (selected (first ++ second)) := by
  simp [followedBy, selected, positional, Bool.or_assoc, Option.or_assoc]

/-- An argument that does not end the reading is added to the options. -/
theorem ofArguments_cons {argument : String} (h : ¬ EndsReading argument) (options : Options)
    (rest : List String) :
    Request.ofArguments options (argument :: rest) =
      Request.ofArguments (options.followedBy (selected [argument])) rest := by
  by_cases hquiet : argument = "--quiet"
  · have hoption : isOption "--quiet" = true := by decide
    rw [hquiet, Request.ofArguments, if_pos rfl]
    simp [Options.followedBy, selected, positional, hoption]
  · by_cases hdecrement : argument = "--true-dec"
    · have hoption : isOption "--true-dec" = true := by decide
      rw [hdecrement, Request.ofArguments, if_neg (by decide), if_pos rfl]
      simp [Options.followedBy, selected, positional, hoption]
    · -- neither an option nor a call for help, so it names a file
      simp only [EndsReading, hquiet, hdecrement, not_or, ne_eq, not_false_eq_true, and_true] at h
      obtain ⟨hhelp, hh, hoption⟩ := h
      rw [Request.ofArguments, if_neg hquiet, if_neg hdecrement, if_neg (by simp [hhelp, hh]),
        if_neg hoption]
      simp [Options.followedBy, selected, positional, hoption, Ne.symm hquiet, Ne.symm hdecrement]

/-- Arguments none of which ends the reading come to the options they select. -/
theorem ofArguments_append {arguments : List String}
    (h : ∀ argument ∈ arguments, ¬ EndsReading argument) (options : Options) (rest : List String) :
    Request.ofArguments options (arguments ++ rest) =
      Request.ofArguments (options.followedBy (selected arguments)) rest := by
  induction arguments generalizing options with
  | nil => simp [selected, positional, Options.followedBy]
  | cons argument more ih =>
    rw [List.forall_mem_cons] at h
    rw [List.cons_append, ofArguments_cons h.1, ih h.2, Options.followedBy_selected,
      List.singleton_append]

theorem ofArguments_eq_selected {arguments : List String}
    (h : ∀ argument ∈ arguments, ¬ EndsReading argument) :
    Request.ofArguments {} arguments = .run (selected arguments) := by
  have hread := ofArguments_append h {} []
  rw [List.append_nil] at hread
  rw [hread]
  simp [Request.ofArguments, Options.followedBy]

/-- One more call to be quiet, in whatever place, makes a run quiet and changes nothing else. -/
theorem selected_insert_quiet (before after : List String) :
    selected (before ++ "--quiet" :: after) = { selected (before ++ after) with quiet := true } := by
  have hoption : isOption "--quiet" = true := by decide
  simp [selected, positional, hoption]

/-! ## Responses -/

theorem Response.stdout_ofErrors (code : UInt32) (lines : List String) :
    (Response.ofErrors code lines).stdout = "" := by
  have hlog : textOn .out ((lines.map fun line => (⟨.err, [line]⟩ : OutputLine)).flatMap
      OutputLine.writes).toArray = "" := textOn_of_other_channel (by simp)
  rw [List.flatMap_map] at hlog
  exact hlog

theorem Response.stderr_ofErrors (code : UInt32) (lines : List String) :
    (Response.ofErrors code lines).stderr = String.join (lines.map (· ++ "\n")) := by
  have hlog : textOn .err ((lines.map fun line => (⟨.err, [line]⟩ : OutputLine)).flatMap
      OutputLine.writes).toArray = _ := textOn_of_channel (by simp)
  rw [List.flatMap_map] at hlog
  rw [stderr, ofErrors, hlog]
  simp [OutputLine.text, Function.comp_def]

/-- What a program sends to the two channels is what running it records and what fails in it. -/
theorem runProgram_eq (settings : Settings) (hlimit : settings.dumpLimit = none)
    (lines : List String) :
    (runProgram settings lines).stdout = ((Machine.fresh settings).run lines).2.transcript.text ∧
      (runProgram settings lines).stderr = ((Machine.fresh settings).run lines).1.reports :=
  Machine.stream_fresh hlimit lines

/-- The two responses differ in standard output at most, and the first has none. -/
structure IsQuieted (quiet response : Response) : Prop where
  stdout : quiet.stdout = ""
  stderr : quiet.stderr = response.stderr
  code : quiet.code = response.code

theorem isQuieted_ofErrors (code : UInt32) (lines : List String) :
    IsQuieted (.ofErrors code lines) (.ofErrors code lines) :=
  ⟨Response.stdout_ofErrors code lines, rfl, rfl⟩

theorem isQuieted_runLoaded (options : Options)
    (loaded : Except Program.LoadError (List String)) :
    IsQuieted (runLoaded { options with quiet := true }.settings loaded)
      (runLoaded options.settings loaded) := by
  cases loaded with
  | error failure => exact isQuieted_ofErrors 1 ["Error: " ++ failure.message]
  | ok lines =>
    have hquiet := runProgram_eq { options with quiet := true }.settings rfl lines
    have hloud := runProgram_eq options.settings rfl lines
    have halike : (Machine.fresh { options with quiet := true }.settings).Alike
        (Machine.fresh options.settings) := ⟨rfl, rfl, rfl⟩
    refine ⟨?_, ?_, rfl⟩
    · rw [runLoaded, hquiet.1, Machine.transcript_run_of_quiet rfl]
      rfl
    · rw [runLoaded, hquiet.2, (halike.run lines).1, runLoaded, hloud.2]

theorem isQuieted_runFile (options : Options) (path : String) (found : Lookup) :
    IsQuieted (runFile { options with quiet := true }.settings path found)
      (runFile options.settings path found) := by
  cases found with
  | missing => exact isQuieted_ofErrors 1 ["Error: File '" ++ path ++ "' not found"]
  | unopenable failure => exact isQuieted_ofErrors 1 ["Error: " ++ failure.text]
  | directory => exact isQuieted_runLoaded options (.error (.unreadable .isDirectory))
  | file bytes => exact isQuieted_runLoaded options (Program.load bytes)

theorem isQuieted_respond (name : String) (options : Options) (stdin : List UInt8)
    (lookup : String → Lookup) :
    IsQuieted ((Request.run { options with quiet := true }).respond name stdin lookup)
      ((Request.run options).respond name stdin lookup) := by
  simp only [Request.respond]
  split
  · rename_i path _
    exact isQuieted_runFile options path (lookup path)
  · exact isQuieted_runLoaded options (Program.load stdin)

/-- The bytes that arguments ask to be run: those of standard input, or those of the file that the
last positional argument names. -/
def Feeds (arguments : List String) (stdin : List UInt8) (lookup : String → Lookup)
    (bytes : List UInt8) : Prop :=
  match (positional arguments).getLast? with
  | none => bytes = stdin
  | some path => lookup path = .file bytes

theorem respond_of_feeds {arguments : List String}
    (h : ∀ argument ∈ arguments, ¬ EndsReading argument) {stdin bytes : List UInt8}
    {lookup : String → Lookup} (hfeeds : Feeds arguments stdin lookup bytes) (name : String) :
    respond name arguments stdin lookup =
      runLoaded (selected arguments).settings (Program.load bytes) := by
  rw [respond, ofArguments_eq_selected h, Request.respond]
  unfold Feeds at hfeeds
  cases hfile : (positional arguments).getLast? with
  | none =>
    rw [hfile] at hfeeds
    simp only [selected, hfile]
    rw [hfeeds]
  | some path =>
    rw [hfile] at hfeeds
    simp only [selected, hfile]
    rw [hfeeds]
    rfl

/-- **`response_matches_run`**: take arguments none of which ends the reading. The response is the load
error and an exit code of one, or the dumps and the reports of running the loaded lines on a fresh
machine and an exit code of zero. A call to be quiet anywhere among the arguments takes standard output
away and changes nothing else. -/
theorem response_matches_run (name : String) (arguments : List String)
    (h : ∀ argument ∈ arguments, ¬ EndsReading argument) (stdin : List UInt8)
    (lookup : String → Lookup) :
    let response := respond name arguments stdin lookup
    let settings : Settings :=
      { decrement := if "--true-dec" ∈ arguments then .subtract else .legacy
        recordDumps := "--quiet" ∉ arguments
        dumpLimit := none }
    (∀ bytes, Feeds arguments stdin lookup bytes →
      (∀ failure, Program.load bytes = .error failure →
        response.code = 1 ∧ response.stdout = "" ∧
        response.stderr = "Error: " ++ failure.message ++ "\n") ∧
      ∀ lines, Program.load bytes = .ok lines →
        let run := (Machine.fresh settings).run lines
        response.code = 0 ∧
        response.stdout = String.join (run.2.transcript.output.map (· ++ "\n")) ∧
        response.stderr = String.join (run.1.failures.toList.map fun failure =>
          "Error executing instruction: " ++ failure.fault.message ++ "\n")) ∧
    ∀ before after, arguments = before ++ after →
      let quiet := respond name (before ++ "--quiet" :: after) stdin lookup
      quiet.stdout = "" ∧ quiet.stderr = response.stderr ∧ quiet.code = response.code := by
  intro response settings
  have hsettings : (selected arguments).settings = settings := by
    simp [selected, Options.settings, settings]
  refine ⟨fun bytes hfeeds => ?_, ?_⟩
  · have hresponse : response = runLoaded settings (Program.load bytes) := by
      rw [← hsettings]
      exact respond_of_feeds h hfeeds name
    rw [hresponse]
    refine ⟨fun failure hload => ?_, fun lines hload => ?_⟩
    · rw [hload, runLoaded, Response.stdout_ofErrors, Response.stderr_ofErrors]
      exact ⟨rfl, rfl, by simp⟩
    · obtain ⟨hstdout, hstderr⟩ := runProgram_eq settings rfl lines
      rw [hload, runLoaded]
      refine ⟨rfl, hstdout, ?_⟩
      rw [hstderr, Summary.reports]
      simp only [Fault.text_report]
  · rintro before after rfl quiet
    have hall : ∀ argument ∈ before ++ "--quiet" :: after, ¬ EndsReading argument := by
      intro argument hargument
      rcases List.mem_append.1 hargument with hbefore | hafter
      · exact h argument (List.mem_append_left after hbefore)
      · rcases List.mem_cons.1 hafter with rfl | hafter
        · decide
        · exact h argument (List.mem_append_right before hafter)
    have hquieted := isQuieted_respond name (selected (before ++ after)) stdin lookup
    rw [← selected_insert_quiet, ← ofArguments_eq_selected hall, ← ofArguments_eq_selected h] at hquieted
    exact ⟨hquieted.stdout, hquieted.stderr, hquieted.code⟩

/-- The second of two files is run with the other decrement rule; the first does not exist. Its last
line divides by an unbound name. -/
theorem response_matches_run_file :
    let arguments := ["a", "--true-dec", "-b"]
    let bytes := "2 A DB 0\nDEC A\nDIV A B".toUTF8.data.toList
    let lookup := fun path => if path = "-b" then Lookup.file bytes else .missing
    let response := respond "hexasm" arguments [] lookup
    let quiet := respond "hexasm" ["a", "--quiet", "--true-dec", "-b"] [] lookup
    (∀ argument ∈ arguments, ¬ EndsReading argument) ∧ Feeds arguments [] lookup bytes ∧
    Program.load bytes = .ok [" A DB 0", "DEC A", "DIV A B"] ∧
    response.code = 0 ∧
    response.stdout = "Hex Key: 0x00001h Value: 0\nHex Key: 0x00001h Value: ffffffff\n" ∧
    response.stderr = "Error executing instruction: Source register not found: B\n" ∧
    quiet.stdout = "" ∧ quiet.stderr = response.stderr ∧ quiet.code = response.code := by
  intro arguments bytes lookup response quiet
  have hreads : ∀ argument ∈ arguments, ¬ EndsReading argument := by decide
  have hfeeds : Feeds arguments [] lookup bytes := rfl
  have hload : Program.load bytes = .ok [" A DB 0", "DEC A", "DIV A B"] := by decide +kernel
  obtain ⟨hresponse, hquiet⟩ := response_matches_run "hexasm" arguments hreads [] lookup
  obtain ⟨hcode, hstdout, hstderr⟩ := (hresponse bytes hfeeds).2 _ hload
  exact ⟨hreads, hfeeds, hload, hcode, hstdout.trans (by decide), hstderr.trans (by decide),
    hquiet ["a"] ["--true-dec", "-b"] rfl⟩

end CommandLine

end HexMachine
