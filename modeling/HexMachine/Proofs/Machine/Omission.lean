import HexMachine.Machine.Batch
import HexMachine.Proofs.Machine.Atomicity

/-!
# Lines that fault can be left out

A line that faults is counted and reported, and that is all. Main statement
`faultless_lines_suffice`: from any machine on, the lines of a list that have no fault can be run
alone. None of them has a fault then either, and the machine that is left differs from that of the
whole list in the numbers of lines only, its own and those on the dumps.

Two runs of different length are compared here, so the numbers are forgotten on both sides,
`undated`: machines that are equal without them do the same on every line, and a line that faults
leaves a machine that is equal without them.
-/
namespace HexMachine

/-! ## Forgetting the numbers of lines -/

/-- The dump without the number of its line. -/
def Dump.undated (dump : Dump) : Dump := ⟨0, dump.entries⟩

namespace Transcript

/-- The transcript without the numbers of lines. -/
def undated (transcript : Transcript) : Transcript :=
  { transcript with held := transcript.held.map Dump.undated }

theorem undated_record (transcript : Transcript) (dump : Dump) :
    (transcript.record dump).undated = transcript.undated.record dump.undated := by
  unfold record
  cases hlimit : transcript.limit with
  | none => simp [undated, hlimit]
  | some limit =>
    -- what is let go depends on how many dumps are held, not on their numbers
    cases limit with
    | zero => simp [undated, hlimit]
    | succ room => simp [undated, hlimit, List.map_drop]

theorem undated_recordAll (transcript : Transcript) (dumps : List Dump) :
    (transcript.recordAll dumps).undated =
      transcript.undated.recordAll (dumps.map Dump.undated) := by
  induction dumps generalizing transcript with
  | nil => rfl
  | cons dump rest ih =>
    have hrest := ih (transcript.record dump)
    rw [undated_record] at hrest
    exact hrest

end Transcript

namespace Machine

/-- The machine without the numbers of lines. -/
def undated (machine : Machine) : Machine :=
  { machine with transcript := machine.transcript.undated, line := 0 }

theorem undated_eq_iff {a b : Machine} :
    a.undated = b.undated ↔
      a.settings = b.settings ∧ a.store = b.store ∧
        a.transcript.undated = b.transcript.undated := by
  simp [undated]

/-! ## One line -/

theorem undated_effect {a b : Machine} (h : a.undated = b.undated) (instruction : Instruction) :
    (a.effect instruction).store = (b.effect instruction).store ∧
    (a.effect instruction).fault = (b.effect instruction).fault ∧
    (a.effect instruction).dumps.map Dump.undated =
      (b.effect instruction).dumps.map Dump.undated := by
  obtain ⟨hsettings, hstore, -⟩ := undated_eq_iff.1 h
  have hstages : a.stages instruction = b.stages instruction :=
    stages_congr hstore (congrArg Settings.decrement hsettings) instruction
  unfold effect
  rw [hstages]
  cases b.stages instruction with
  | error fault => exact ⟨hstore, rfl, rfl⟩
  | ok stores =>
    refine ⟨by rw [hstore], rfl, ?_⟩
    simp only [List.map_map]
    rfl

theorem undated_lineEffect {a b : Machine} (h : a.undated = b.undated) (line : String) :
    (a.lineEffect line).store = (b.lineEffect line).store ∧
    (a.lineEffect line).fault = (b.lineEffect line).fault ∧
    (a.lineEffect line).dumps.map Dump.undated = (b.lineEffect line).dumps.map Dump.undated := by
  have hcounted : a.nextLine.undated = b.nextLine.undated := h
  unfold lineEffect
  cases Instruction.ofLine line with
  | error fault => exact ⟨(undated_eq_iff.1 h).2.1, rfl, rfl⟩
  | ok instruction => exact undated_effect hcounted instruction

/-- Machines that are equal but for the numbers of lines do the same on every line. -/
theorem undated_execute {a b : Machine} (h : a.undated = b.undated) (line : String) :
    (a.execute line).fault = (b.execute line).fault ∧
      (a.execute line).machine.undated = (b.execute line).machine.undated := by
  obtain ⟨hstore, hfault, hdumps⟩ := undated_lineEffect h line
  obtain ⟨hsettings, -, htranscript⟩ := undated_eq_iff.1 h
  have hrecorded : (a.recorded (a.lineEffect line).dumps).map Dump.undated =
      (b.recorded (b.lineEffect line).dumps).map Dump.undated := by
    unfold recorded
    rw [hsettings]
    split
    · exact hdumps
    · rfl
  rw [execute_eq, execute_eq]
  refine ⟨hfault, undated_eq_iff.2 ⟨hsettings, hstore, ?_⟩⟩
  show Transcript.undated (a.transcript.recordAll _) = Transcript.undated (b.transcript.recordAll _)
  rw [Transcript.undated_recordAll, Transcript.undated_recordAll, htranscript]
  exact congrArg _ hrecorded

theorem undated_execute_of_fault {machine : Machine} {line : String} {fault : Fault}
    (h : (machine.execute line).fault = some fault) :
    (machine.execute line).machine.undated = machine.undated := by
  rw [execute_machine_of_fault h]
  rfl

/-! ## Lists of lines -/

/-- The lines that have no fault, each on the machine that all lines before it have left. -/
def faultless (machine : Machine) : List String → List String
  | [] => []
  | line :: rest =>
    match (machine.execute line).fault with
    | none => line :: faultless (machine.execute line).machine rest
    | some _ => faultless (machine.execute line).machine rest

section

variable {machine : Machine} {line : String}

theorem faultless_cons_of_none (h : (machine.execute line).fault = none) (rest : List String) :
    machine.faultless (line :: rest) = line :: (machine.execute line).machine.faultless rest := by
  simp only [faultless, h]

theorem faultless_cons_of_some {fault : Fault} (h : (machine.execute line).fault = some fault)
    (rest : List String) :
    machine.faultless (line :: rest) = (machine.execute line).machine.faultless rest := by
  simp only [faultless, h]

theorem runLine_of_none {summary : Summary} (h : (machine.execute line).fault = none) :
    runLine (summary, machine) line =
      ({ summary with succeeded := summary.succeeded + 1 }, (machine.execute line).machine) := by
  simp only [runLine, h, Summary.note]

theorem runLine_of_some {summary : Summary} {fault : Fault}
    (h : (machine.execute line).fault = some fault) :
    runLine (summary, machine) line =
      ({ summary with
          failures := summary.failures.push ⟨(machine.execute line).machine.line, line, fault⟩ },
        (machine.execute line).machine) := by
  simp only [runLine, h, Summary.note]

end

theorem faultless_sublist (machine : Machine) (lines : List String) :
    (machine.faultless lines).Sublist lines := by
  induction lines generalizing machine with
  | nil => exact .slnil
  | cons line rest ih =>
    cases h : (machine.execute line).fault with
    | none =>
      rw [faultless_cons_of_none h]
      exact (ih _).cons_cons line
    | some fault =>
      rw [faultless_cons_of_some h]
      exact (ih _).cons line

/-- A run counts the lines without a fault and reports all others. -/
theorem foldl_runLine_counts (lines : List String) (summary : Summary) (machine : Machine) :
    (lines.foldl runLine (summary, machine)).1.succeeded =
      summary.succeeded + (machine.faultless lines).length ∧
    (machine.faultless lines ++
        (lines.foldl runLine (summary, machine)).1.failures.toList.map Failure.text).Perm
      (summary.failures.toList.map Failure.text ++ lines) := by
  induction lines generalizing summary machine with
  | nil => simp [faultless]
  | cons line rest ih =>
    cases h : (machine.execute line).fault with
    | none =>
      rw [List.foldl_cons, runLine_of_none h, faultless_cons_of_none h]
      obtain ⟨hcount, hperm⟩ := ih { summary with succeeded := summary.succeeded + 1 }
        (machine.execute line).machine
      refine ⟨?_, (hperm.cons line).trans List.perm_middle.symm⟩
      rw [hcount, List.length_cons, Nat.add_assoc, Nat.add_comm 1]
    | some fault =>
      rw [List.foldl_cons, runLine_of_some h, faultless_cons_of_some h]
      obtain ⟨hcount, hperm⟩ := ih _ (machine.execute line).machine
      refine ⟨hcount, hperm.trans ?_⟩
      simp

/-- Running the lines without a fault, beside a run of all lines that stands at the same point but
for the numbers of lines. -/
theorem foldl_runLine_faultless (lines : List String) {summary other : Summary} {a b : Machine}
    (h : a.undated = b.undated) :
    ((a.faultless lines).foldl runLine (other, b)).1 =
      { other with succeeded := other.succeeded + (a.faultless lines).length } ∧
    ((a.faultless lines).foldl runLine (other, b)).2.undated =
      (lines.foldl runLine (summary, a)).2.undated := by
  induction lines generalizing summary other a b with
  | nil => exact ⟨rfl, h.symm⟩
  | cons line rest ih =>
    obtain ⟨hsame, hnext⟩ := undated_execute h line
    cases hfault : (a.execute line).fault with
    | none =>
      -- both runs go on with the line
      rw [faultless_cons_of_none hfault, List.foldl_cons, List.foldl_cons,
        runLine_of_none (hsame ▸ hfault), runLine_of_none hfault]
      obtain ⟨hsummary, hmachine⟩ := @ih { summary with succeeded := summary.succeeded + 1 }
        { other with succeeded := other.succeeded + 1 } _ _ hnext
      refine ⟨?_, hmachine⟩
      rw [hsummary, List.length_cons, Nat.add_assoc, Nat.add_comm 1]
    | some fault =>
      -- the shorter run stays where it is
      rw [faultless_cons_of_some hfault, List.foldl_cons, runLine_of_some hfault]
      exact ih ((undated_execute_of_fault hfault).trans h)

/-- **`faultless_lines_suffice`**: of a list of lines, those that have no fault when all are run are
run alone from the same machine on. A run reports exactly the others. Alone they have no fault, so
that they are counted as succeeding and as many as before; the store is the same, and so are the
dumps held and the number of those let go, but for the numbers of lines on the dumps. -/
theorem faultless_lines_suffice (machine : Machine) (lines : List String) :
    let full := machine.run lines
    let good := machine.faultless lines
    let clean := machine.run good
    (good.Sublist lines ∧ (good ++ full.1.failures.toList.map Failure.text).Perm lines) ∧
    (clean.1.isClean = true ∧ clean.1.succeeded = good.length ∧
      clean.1.succeeded = full.1.succeeded) ∧
    clean.2.store = full.2.store ∧
    clean.2.transcript.held.map Dump.entries = full.2.transcript.held.map Dump.entries ∧
    clean.2.transcript.dropped = full.2.transcript.dropped := by
  intro full good clean
  obtain ⟨hcount, hperm⟩ := foldl_runLine_counts lines {} machine
  obtain ⟨hsummary, hmachine⟩ : clean.1 = { succeeded := 0 + good.length } ∧
      clean.2.undated = full.2.undated :=
    @foldl_runLine_faultless lines {} {} machine machine rfl
  obtain ⟨-, hstore, htranscript⟩ := undated_eq_iff.1 hmachine
  have hentries : ∀ transcript : Transcript,
      transcript.undated.held.map Dump.entries = transcript.held.map Dump.entries := by
    intro transcript
    simp [Transcript.undated, Dump.undated]
  have hdropped : clean.2.transcript.undated.dropped = full.2.transcript.undated.dropped := by
    rw [htranscript]
  refine ⟨⟨faultless_sublist machine lines, ?_⟩, ⟨?_, ?_, ?_⟩, hstore, ?_, hdropped⟩
  · rw [List.map_nil, List.nil_append] at hperm
    exact hperm
  · rw [hsummary]
    rfl
  · rw [hsummary, Nat.zero_add]
  · rw [hsummary]
    exact hcount.symm
  · rw [← hentries, htranscript, hentries]

end Machine

end HexMachine
