import HexMachine.Proofs.Machine.Accounting
import HexMachine.Proofs.Machine.Provenance
import HexMachine.Proofs.Program.Loading
import HexMachine.Proofs.Token.Runs

/-!
# Blank lines in a program

A line is blank if it holds white space only, and such lines are skipped in front of the header. Behind
the count another rule holds: the rest of the header and the counted lines are left out if they are
empty, and kept with nothing but white space in them. Main statement `blank_lines_dropped_iff_empty`: a
loaded program has no blank line if and only if all blank lines that it was offered are empty. If one
of them holds spaces, running the program reports it as an empty line; `spaces_are_loaded` shows the
shortest texts with which this happens.

That a line is reported as empty is decided by its tokens. A line of spaces has none, and neither has
one with commas among them, while a tab is a token.
-/
namespace HexMachine

/-! ## Lines that are reported as empty -/

namespace Machine

/-- Performing an instruction has other faults than that there is none. -/
theorem fault_perform_ne_emptyLine (machine : Machine) (instruction : Instruction) :
    (machine.perform instruction).fault ≠ some .emptyLine := by
  intro h
  cases obstacle_of_fault h

theorem fault_execute_eq_emptyLine_iff {machine : Machine} {line : String} :
    (machine.execute line).fault = some .emptyLine ↔ Token.IsGap line := by
  have hdecoded : Instruction.ofLine line = .error .emptyLine ↔ Token.IsGap line := by
    rw [← Token.ofLine_eq_nil_iff]
    exact Instruction.ofTokens_eq_emptyLine_iff
  rw [← hdecoded]
  unfold execute
  cases Instruction.ofLine line with
  | error fault => simp
  | ok instruction => simp [fault_perform_ne_emptyLine]

/-- What one line adds to the lines reported as empty. -/
theorem emptyLine_failure (machine : Machine) (line : String) (number : Nat) :
    (((machine.execute line).fault.map (⟨number, line, ·⟩)).toList.filter
      (·.fault = .emptyLine)).map Failure.text = [line].filter (Token.IsGap ·) := by
  by_cases hgap : Token.IsGap line
  · simp [fault_execute_eq_emptyLine_iff.2 hgap, hgap]
  · have hother : ∀ fault, (machine.execute line).fault = some fault → fault ≠ .emptyLine := by
      rintro fault hfault rfl
      exact hgap (fault_execute_eq_emptyLine_iff.1 hfault)
    cases hfault : (machine.execute line).fault with
    | none => simp [hgap]
    | some fault => simp [hgap, hother fault hfault]

/-- The lines reported as empty are those that hold separators only, in order. -/
theorem emptyLine_failures (machine : Machine) (lines : List String) :
    ((machine.run lines).1.failures.toList.filter (·.fault = .emptyLine)).map Failure.text =
      lines.filter (Token.IsGap ·) := by
  induction lines using List.reverseRecOn with
  | nil => rfl
  | append_singleton lines line ih =>
    rw [run_concat, runLine, Summary.failures_note, List.filter_append, List.map_append, ih,
      emptyLine_failure, List.filter_append]

end Machine

namespace Program

/-! ## What a program is taken from -/

/-- The lines that bytes offer to a program: the rest of the header, and the lines that its count
reaches, each without a carriage return at its end. -/
def Offers (bytes : List UInt8) (offered : List String) : Prop :=
  ∃ lines header following count rest, ∃ counted : List String, Lines bytes lines ∧
    HasHeader lines (Text.bytes header) following ∧ HasCount header count rest ∧
    following.take count = counted.map Text.bytes ∧ offered = rest :: counted.map withoutReturn

/-- A program is what is offered, less the empty lines. -/
theorem exists_offers_of_load {bytes : List UInt8} {program : List String}
    (h : load bytes = .ok program) :
    ∃ offered, Offers bytes offered ∧ program = offered.filter (· ≠ "") := by
  obtain ⟨lines, hlines, hloads⟩ := load_eq_iff.1 h
  cases hloads with
  | @program header rest count following counted hheader hcount hcounted =>
    refine ⟨rest :: counted.map withoutReturn,
      ⟨lines, header, following, count, rest, counted, hlines, hheader, hcount, hcounted, rfl⟩, ?_⟩
    by_cases hrest : rest = "" <;> simp [hrest]

/-- Lines made of spaces, of which the empty one is the shortest. -/
def IsSpaces (line : String) : Prop := ∀ c ∈ line.toList, c = ' '

theorem IsSpaces.isGap {line : String} (h : IsSpaces line) : Token.IsGap line := by
  intro c hc
  rw [h c hc]
  decide

/-- A class of lines is kept out of what is not empty if and only if it holds the empty line at most. -/
theorem forall_mem_filter_ne_empty_iff {p : String → Prop} {offered : List String} :
    (∀ line ∈ offered.filter (· ≠ ""), ¬ p line) ↔ ∀ line ∈ offered, p line → line = "" := by
  constructor
  · intro h line hline hp
    by_contra hne
    exact h line (by simp [hline, hne]) hp
  · intro h line hline hp
    simp only [List.mem_filter, decide_eq_true_eq] at hline
    exact hline.2 (h line hline.1 hp)

/-- A line of spaces is reported by a run if and only if it is among the lines. -/
theorem spaces_reported_iff (machine : Machine) (lines : List String) :
    (∃ failure ∈ (machine.run lines).1.failures.toList,
      failure.fault = .emptyLine ∧ IsSpaces failure.text) ↔ ∃ line ∈ lines, IsSpaces line := by
  have hreported : ∀ text, text ∈ lines ∧ Token.IsGap text ↔
      ∃ failure ∈ (machine.run lines).1.failures.toList,
        failure.fault = .emptyLine ∧ failure.text = text := by
    intro text
    have hmem : text ∈ lines.filter (Token.IsGap ·) ↔
        text ∈ ((machine.run lines).1.failures.toList.filter (·.fault = .emptyLine)).map
          Failure.text := by
      rw [machine.emptyLine_failures lines]
    simpa [and_assoc] using hmem
  constructor
  · rintro ⟨failure, hmem, hfault, hspaces⟩
    exact ⟨failure.text, ((hreported _).2 ⟨failure, hmem, hfault, rfl⟩).1, hspaces⟩
  · rintro ⟨line, hmem, hspaces⟩
    obtain ⟨failure, hfailure, hfault, rfl⟩ := (hreported line).1 ⟨hmem, hspaces.isGap⟩
    exact ⟨failure, hfailure, hfault, hspaces⟩

/-- **`blank_lines_dropped_iff_empty`**: what is loaded is what the text offers, less the empty lines.
So it has no blank line if and only if all blank lines that are offered are empty, and running it
reports no line of spaces if and only if all lines of spaces that are offered are empty. -/
theorem blank_lines_dropped_iff_empty (bytes : List UInt8) (program : List String)
    (h : load bytes = .ok program) :
    ∃ offered, Offers bytes offered ∧ program = offered.filter (· ≠ "") ∧
      ((∀ line ∈ program, Text.isBlankText line = false) ↔
        ∀ line ∈ offered, Text.isBlankText line = true → line = "") ∧
      ∀ machine : Machine,
        (∀ failure ∈ (machine.run program).1.failures.toList,
          failure.fault = .emptyLine → ¬ IsSpaces failure.text) ↔
        ∀ line ∈ offered, IsSpaces line → line = "" := by
  obtain ⟨offered, hoffered, rfl⟩ := exists_offers_of_load h
  refine ⟨offered, hoffered, rfl, ?_, ?_⟩
  · simpa using forall_mem_filter_ne_empty_iff (p := (Text.isBlankText · = true))
  · intro machine
    rw [← forall_mem_filter_ne_empty_iff]
    have hreported := not_congr (spaces_reported_iff machine (offered.filter (· ≠ "")))
    simpa using hreported

/-- A space behind the count is kept and an empty counted line is not. -/
theorem blank_lines_dropped_iff_empty_mixed :
    load (Text.bytes "2 \nA DB 1\n\r\n") = .ok [" ", "A DB 1"] ∧
    ∃ offered, Offers (Text.bytes "2 \nA DB 1\n\r\n") offered ∧
      [" ", "A DB 1"] = offered.filter (· ≠ "") ∧
      ((∀ line ∈ [" ", "A DB 1"], Text.isBlankText line = false) ↔
        ∀ line ∈ offered, Text.isBlankText line = true → line = "") ∧
      ∀ machine : Machine,
        (∀ failure ∈ (machine.run [" ", "A DB 1"]).1.failures.toList,
          failure.fault = .emptyLine → ¬ IsSpaces failure.text) ↔
        ∀ line ∈ offered, IsSpaces line → line = "" := by
  have hload : load (Text.bytes "2 \nA DB 1\n\r\n") = .ok [" ", "A DB 1"] := by decide +kernel
  exact ⟨hload, blank_lines_dropped_iff_empty _ _ hload⟩

/-- A line that is one space is blank, and it is loaded both as a counted line and as the rest of the
header. Running it reports an empty line. -/
theorem spaces_are_loaded :
    Text.isBlankText " " = true ∧
    load (Text.bytes "1\n \n") = .ok [" "] ∧ load (Text.bytes "0 \n") = .ok [" "] ∧
    ((Machine.fresh {}).run [" "]).1.failures = #[⟨1, " ", .emptyLine⟩] := by
  refine ⟨?_, ?_, ?_, ?_⟩ <;> decide +kernel

end Program

end HexMachine
