import HexMachine.Proofs.Machine.Change
import Mathlib.Data.List.Induction

/-!
# What a summary accounts for

A run puts every line on one of two accounts, the number of lines that succeeded or the list of
failures, and gives a failure the number that the machine's own counter has reached. Main statement
`summary_accounts_for_lines`: lines can be run in two batches, and the summaries of the batches add up
to that of the whole list; and the failures of a list are those of its places at which a line has a
fault, in order, with numbers that go on from where the counter stood.

A batch starts with an empty summary and the counter of the batch before it. So the summary is a sum,
`run_append`, while the numbers are read off the machine, `failures_run`.
-/
namespace HexMachine

namespace Summary

/-- The account of two batches of lines, the second run after the first. -/
def append (first second : Summary) : Summary where
  succeeded := first.succeeded + second.succeeded
  failures := first.failures ++ second.failures

theorem append_empty (summary : Summary) : summary.append {} = summary := by
  simp [append]

/-- A line noted on the second account is noted on the sum. -/
theorem append_note (first second : Summary) (text : String) (after : Machine)
    (fault : Option Fault) :
    first.append (second.note text after fault) = (first.append second).note text after fault := by
  cases fault with
  | none => simp [append, note, Nat.add_assoc]
  | some fault => simp [append, note]

/-- Every line is noted on one account, whether it has a fault or not. -/
theorem total_note (summary : Summary) (text : String) (after : Machine) (fault : Option Fault) :
    (summary.note text after fault).total = summary.total + 1 := by
  cases fault with
  | none =>
    simp only [note, total]
    omega
  | some fault =>
    simp only [note, total, Array.size_push]
    omega

theorem failures_note (summary : Summary) (text : String) (after : Machine) (fault : Option Fault) :
    (summary.note text after fault).failures.toList =
      summary.failures.toList ++ (fault.map (⟨after.line, text, ·⟩)).toList := by
  cases fault with
  | none => simp [note]
  | some fault => simp [note]

end Summary

namespace Machine

/-! ## Batches -/

theorem run_concat (machine : Machine) (lines : List String) (line : String) :
    machine.run (lines ++ [line]) = runLine (machine.run lines) line := by
  simp [run]

/-- What a summary holds before a run stays in front. -/
theorem foldl_runLine_append (lines : List String) (first second : Summary) (machine : Machine) :
    lines.foldl runLine (first.append second, machine) =
      (first.append (lines.foldl runLine (second, machine)).1,
        (lines.foldl runLine (second, machine)).2) := by
  induction lines generalizing second machine with
  | nil => rfl
  | cons line rest ih =>
    have hstep : runLine (first.append second, machine) line =
        (first.append (runLine (second, machine) line).1, (runLine (second, machine) line).2) := by
      simp only [runLine, Summary.append_note]
    rw [List.foldl_cons, List.foldl_cons, hstep, ih]

theorem run_append (machine : Machine) (lines more : List String) :
    machine.run (lines ++ more) =
      ((machine.run lines).1.append ((machine.run lines).2.run more).1,
        ((machine.run lines).2.run more).2) := by
  have hrest := foldl_runLine_append more (machine.run lines).1 {} (machine.run lines).2
  rw [Summary.append_empty] at hrest
  rw [run, List.foldl_append]
  exact hrest

/-! ## Numbers -/

theorem machine_run (machine : Machine) (lines : List String) :
    (machine.run lines).2 = machine.obeyAll (lines.map .execute) :=
  foldl_runLine lines ({}, machine)

theorem line_run (machine : Machine) (lines : List String) :
    (machine.run lines).2.line = machine.line + lines.length := by
  induction lines using List.reverseRecOn with
  | nil => rfl
  | append_singleton lines line ih =>
    rw [run_concat]
    simp only [runLine, execute_line, ih, List.length_append, List.length_singleton]
    omega

theorem total_run (machine : Machine) (lines : List String) :
    (machine.run lines).1.total = lines.length := by
  induction lines using List.reverseRecOn with
  | nil => rfl
  | append_singleton lines line ih =>
    rw [run_concat]
    simp only [runLine, Summary.total_note, ih, List.length_append, List.length_singleton]

/-! ## Failures -/

/-- The failure of the line that stands after `place` others, if it has a fault on the machine that
these leave. -/
def failureAt? (machine : Machine) (lines : List String) (place : Nat) : Option Failure :=
  lines[place]?.bind fun line =>
    ((machine.obeyAll ((lines.take place).map .execute)).execute line).fault.map fun fault =>
      ⟨machine.line + (place + 1), line, fault⟩

/-- Lines further on do not matter. -/
theorem failureAt?_append_left (machine : Machine) {lines : List String} {place : Nat}
    (h : place < lines.length) (more : List String) :
    machine.failureAt? (lines ++ more) place = machine.failureAt? lines place := by
  have htake : (lines ++ more).take place = lines.take place :=
    List.take_append_of_le_length (Nat.le_of_lt h)
  simp only [failureAt?, List.getElem?_append_left h, htake]

theorem failureAt?_concat (machine : Machine) (lines : List String) (line : String) :
    machine.failureAt? (lines ++ [line]) lines.length =
      ((machine.run lines).2.execute line).fault.map
        (⟨((machine.run lines).2.execute line).machine.line, line, ·⟩) := by
  simp only [failureAt?, List.getElem?_concat_length, Option.bind_some, List.take_left,
    ← machine_run, execute_line, line_run, Nat.add_assoc]

/-- **`failures_run`**: the failures are those of the places of the list, from the first to the last. -/
theorem failures_run (machine : Machine) (lines : List String) :
    (machine.run lines).1.failures.toList =
      (List.range lines.length).filterMap (machine.failureAt? lines) := by
  induction lines using List.reverseRecOn with
  | nil => rfl
  | append_singleton lines line ih =>
    -- one more line adds the last place and leaves the places before it
    have hbefore : (List.range lines.length).filterMap (machine.failureAt? (lines ++ [line])) =
        (List.range lines.length).filterMap (machine.failureAt? lines) := by
      refine List.filterMap_congr fun place hplace => ?_
      exact machine.failureAt?_append_left (List.mem_range.1 hplace) [line]
    rw [run_concat, List.length_append, List.length_singleton, List.range_succ,
      List.filterMap_append, hbefore, ← ih, runLine, Summary.failures_note, ← failureAt?_concat]
    cases hlast : machine.failureAt? (lines ++ [line]) lines.length with
    | none => simp [hlast]
    | some failure => simp [hlast]

/-- **`summary_accounts_for_lines`**: a list that is run as a whole and in two parts leaves the same
machine, and the summaries of the parts add up to that of the whole. As many lines are accounted for
as there are. The failures are, in order of the places in the list, those of the lines that have a
fault on the machine that the lines before them leave, numbered on from where the counter stood. -/
theorem summary_accounts_for_lines (machine : Machine) (lines more : List String) :
    let first := machine.run lines
    let second := first.2.run more
    let whole := machine.run (lines ++ more)
    (whole.2 = second.2 ∧ whole.1.succeeded = first.1.succeeded + second.1.succeeded ∧
      whole.1.failures = first.1.failures ++ second.1.failures) ∧
    first.1.total = lines.length ∧
    first.2.line = machine.line + lines.length ∧
    first.1.failures.toList = (List.range lines.length).filterMap (machine.failureAt? lines) := by
  intro first second whole
  have hwhole : whole = (first.1.append second.1, second.2) := machine.run_append lines more
  refine ⟨?_, machine.total_run lines, machine.line_run lines, machine.failures_run lines⟩
  rw [hwhole]
  exact ⟨rfl, rfl, rfl⟩

end Machine

end HexMachine
