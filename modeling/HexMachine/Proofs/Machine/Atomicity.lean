import HexMachine.Proofs.Machine.Stages

/-!
# Faults have no effect

A line or an instruction that faults leaves the store, the transcript and the settings as they were,
whatever they held; a line is counted all the same. Most instructions check first and write after.
The legacy decrement is the exception, as it writes and dumps before it checks again: there the
second check cannot fail, because a stored word always reads back.
-/
namespace HexMachine.Machine

theorem perform_machine_of_fault {machine : Machine} {instruction : Instruction} {fault : Fault}
    (h : (machine.perform instruction).fault = some fault) :
    (machine.perform instruction).machine = machine := by
  rw [perform_eq] at h ⊢
  exact attempt_machine_of_fault h

theorem execute_machine_of_fault {machine : Machine} {line : String} {fault : Fault}
    (h : (machine.execute line).fault = some fault) :
    (machine.execute line).machine = machine.nextLine := by
  unfold execute at h ⊢
  split at h
  · exact perform_machine_of_fault h
  · rfl

/-- After an increment that succeeded, another one succeeds. -/
theorem increment_twice {machine : Machine} {dest : String}
    (h : (machine.increment dest).fault = none) :
    ((machine.increment dest).machine.offset dest 1).fault = none := by
  unfold increment offset at h
  cases hword : machine.wordAt dest with
  | error fault => simp [attempt, hword] at h
  | ok word =>
    have hfirst : (machine.increment dest).machine =
        machine.passTo (machine.store.set dest (.word (word + 1))) := by
      simp only [increment, offset, hword, attempt]
      rfl
    rw [hfirst, offset_passTo]

/-- **`fault_leaves_machine`**: a fault leaves everything as it was, but for the count of lines; and
a legacy decrement whose first increment succeeds cannot fault any more. -/
theorem fault_leaves_machine (machine : Machine) :
    (∀ line fault, (machine.execute line).fault = some fault →
      (machine.execute line).machine = { machine with line := machine.line + 1 }) ∧
    (∀ instruction fault, (machine.perform instruction).fault = some fault →
      (machine.perform instruction).machine = machine) ∧
    (∀ dest, (machine.increment dest).fault = none →
      ((machine.increment dest).machine.offset dest 1).fault = none) :=
  ⟨fun _ _ => execute_machine_of_fault, fun _ _ => perform_machine_of_fault,
    fun _ => increment_twice⟩

/-- A decrement of a text that is no number, a division by an unbound name, and the two increments
of a decrement that wraps around. -/
theorem fault_leaves_machine_decrement :
    let machine := (((fresh {}).execute "A DB zz").machine.execute "B DB ffffffff").machine
    (machine.execute "DEC A").machine = { machine with line := 3 } ∧
    (machine.perform (.binary .div "B" "C")).machine = machine ∧
    ((machine.increment "B").machine.offset "B" 1).fault = none := by
  intro machine
  obtain ⟨hline, hinstruction, hincrement⟩ := fault_leaves_machine machine
  exact ⟨hline "DEC A" (.notNumeric "zz") (by decide),
    hinstruction (.binary .div "B" "C") (.unknownRegister .source "C") (by decide),
    hincrement "B" (by decide)⟩

end HexMachine.Machine
