import HexMachine.Machine.Perform
import HexMachine.Proofs.Store.Alignment
import HexMachine.Proofs.Word.Residue

/-!
# Stages of an instruction

An instruction takes a store through one or two stages and dumps each. The stages, or the fault that
there are none, are a function of the store and the decrement rule; the transcript has no part in
them. Main statement `perform_eq`: performing an instruction is to find its stages and, unless that
faults, to pass through them. For the legacy decrement this says that its second increment reads
what the first one wrote, so it cannot fault.

From this follows the form every line has, `execute_eq`: a new store, a list of dumps to be recorded
and a fault, none of which depends on the transcript.
-/
namespace HexMachine

/-- Adds dumps in order. -/
def Transcript.recordAll (transcript : Transcript) (dumps : List Dump) : Transcript :=
  dumps.foldl record transcript

namespace Machine

/-! ## Stages -/

/-- The stores an instruction passes through, the last of which it leaves behind. -/
def stages (machine : Machine) : Instruction → Except Fault (List Store)
  | .declare name _ literal =>
    (validName name).map fun _ => [machine.store.set name (.text literal)]
  | .binary op dest src =>
    (machine.binaryResult op dest src).map fun word => [machine.store.set dest (.word word)]
  | .move dest src =>
    (validName dest >>= fun _ => machine.numericPair dest src).map fun texts =>
      [machine.store.set dest (.text texts.2)]
  | .exchange dest src =>
    (machine.numericPair dest src).map fun texts =>
      [(machine.store.set dest (.text texts.2)).set src (.text texts.1)]
  | .increment dest =>
    (machine.wordAt dest).map fun word => [machine.store.set dest (.word (word + 1))]
  | .decrement dest =>
    (machine.wordAt dest).map fun word =>
      match machine.settings.decrement with
      | .legacy =>
        [machine.store.set dest (.word (word + 1)), machine.store.set dest (.word (word + 1 + 1))]
      | .subtract => [machine.store.set dest (.word (word + -1))]

/-- Changes the store and dumps it. -/
def passTo (machine : Machine) (store : Store) : Machine := { machine with store := store }.dump

/-- Passes through stages in order. -/
def passThrough (machine : Machine) (stores : List Store) : Machine := stores.foldl passTo machine

@[simp] theorem dump_store (machine : Machine) : machine.dump.store = machine.store := by
  unfold dump
  split <;> rfl

@[simp] theorem passTo_store (machine : Machine) (store : Store) :
    (machine.passTo store).store = store := dump_store _

/-- An attempt whose check only prepares the effect. -/
theorem attempt_map {α β : Type} (machine : Machine) (check : Except Fault α) (prepare : α → β)
    (effect : β → Machine) :
    machine.attempt (check.map prepare) effect =
      machine.attempt check fun a => effect (prepare a) := by
  cases check <;> rfl

theorem wordAt_of_get? {machine : Machine} {dest : String} {word : Word}
    (h : machine.store.get? dest = some word.hex) : machine.wordAt dest = .ok word.lowHalf := by
  simp only [wordAt, fetch, h, bind, Except.bind, numeric, Word.read_hex]

/-- The second increment of a legacy decrement finds the text that the first one wrote. -/
theorem offset_passTo (machine : Machine) (dest : String) (word : Word) :
    (machine.passTo (machine.store.set dest (.word word))).offset dest 1 =
      ⟨(machine.passTo (machine.store.set dest (.word word))).passTo
        (machine.store.set dest (.word (word + 1))), none⟩ := by
  have hstore := machine.passTo_store (machine.store.set dest (.word word))
  generalize machine.passTo (machine.store.set dest (.word word)) = next at hstore ⊢
  have hget : next.store.get? dest = some word.hex := by
    rw [hstore]
    exact machine.store.get?_set_self dest (.word word)
  have hsame : (Content.word (word.lowHalf + 1)).encode = (Content.word (word + 1)).encode := by
    refine Word.hex_eq_of_residue_eq ?_
    rw [Word.residue_add, Word.residue_add, Word.residue_lowHalf]
  have hlater : next.store.set dest (.word (word.lowHalf + 1)) =
      machine.store.set dest (.word (word + 1)) := by
    rw [hstore, Store.set_congr _ dest hsame, Store.set_set]
  rw [offset, wordAt_of_get? hget, ← hlater]
  rfl

/-- **`perform_eq`**: an instruction faults without effect or passes through its stages. -/
theorem perform_eq (machine : Machine) (instruction : Instruction) :
    machine.perform instruction =
      machine.attempt (machine.stages instruction) machine.passThrough := by
  cases instruction with
  | declare name width literal => rw [stages, attempt_map]; rfl
  | binary op dest src => rw [stages, attempt_map]; rfl
  | move dest src => rw [stages, attempt_map]; rfl
  | exchange dest src => rw [stages, attempt_map]; rfl
  | increment dest => rw [stages, attempt_map]; rfl
  | decrement dest =>
    rw [stages, attempt_map, perform, decrement]
    cases hrule : machine.settings.decrement with
    | subtract => rfl
    | legacy =>
      simp only [increment, offset]
      cases hword : machine.wordAt dest with
      | error fault => rfl
      | ok word =>
        have hsecond := offset_passTo machine dest (word + 1)
        simp only [attempt, Outcome.andThen]
        exact hsecond

/-- Stages and faults depend on the store and the decrement rule alone. -/
theorem stages_congr {a b : Machine} (hstore : a.store = b.store)
    (hrule : a.settings.decrement = b.settings.decrement) (instruction : Instruction) :
    a.stages instruction = b.stages instruction := by
  cases instruction <;>
    simp only [stages, binaryResult, numericPair, wordAt, fetchPair, fetch, hstore, hrule]

/-- A check that passes after a change of its result passed before. -/
theorem ok_of_map {α β : Type} {check : Except Fault α} {change : α → β} {b : β}
    (h : check.map change = .ok b) : ∃ a, check = .ok a ∧ change a = b := by
  cases check with
  | error fault => cases h
  | ok a =>
    cases h
    exact ⟨a, rfl, rfl⟩

theorem length_stages_le {machine : Machine} {instruction : Instruction} {stores : List Store}
    (h : machine.stages instruction = .ok stores) : stores.length ≤ 2 := by
  cases instruction with
  | decrement dest =>
    obtain ⟨word, -, rfl⟩ := ok_of_map h
    split <;> simp
  | _ =>
    obtain ⟨_, -, rfl⟩ := ok_of_map h
    simp

/-! ## What a line comes to -/

/-- What an instruction or a line does, apart from counting and recording: the store it leaves, the
dumps it takes and its fault. -/
structure Effect where
  store : Store
  dumps : List Dump
  fault : Option Fault

/-- The effect of an instruction. -/
def effect (machine : Machine) (instruction : Instruction) : Effect :=
  match machine.stages instruction with
  | .ok stores =>
    ⟨stores.getLast?.getD machine.store, stores.map (⟨machine.line, ·.entries⟩), none⟩
  | .error fault => ⟨machine.store, [], some fault⟩

/-- The effect of a line, which is counted first. -/
def lineEffect (machine : Machine) (line : String) : Effect :=
  match Instruction.ofLine line with
  | .ok instruction => machine.nextLine.effect instruction
  | .error fault => ⟨machine.store, [], some fault⟩

/-- Those of some dumps that the settings let through: all or none. -/
def recorded (machine : Machine) (dumps : List Dump) : List Dump :=
  if machine.settings.recordDumps then dumps else []

/-- Takes over the store of an effect and records its dumps. -/
def absorb (machine : Machine) (effect : Effect) : Machine :=
  { machine with
    store := effect.store
    transcript := machine.transcript.recordAll (machine.recorded effect.dumps) }

@[simp] theorem recorded_nil (machine : Machine) : machine.recorded [] = [] := by
  unfold recorded
  split <;> rfl

theorem recorded_append (machine : Machine) (first second : List Dump) :
    machine.recorded (first ++ second) = machine.recorded first ++ machine.recorded second := by
  unfold recorded
  split <;> simp

theorem absorb_absorb (machine : Machine) (first second : Effect) :
    (machine.absorb first).absorb second =
      machine.absorb ⟨second.store, first.dumps ++ second.dumps, second.fault⟩ := by
  have hsame : (machine.absorb first).recorded second.dumps = machine.recorded second.dumps := rfl
  rw [absorb, hsame]
  simp only [absorb, recorded_append, Transcript.recordAll, List.foldl_append]

/-- Nothing is absorbed of a fault. -/
theorem absorb_fault (machine : Machine) (fault : Option Fault) :
    machine.absorb ⟨machine.store, [], fault⟩ = machine := by
  simp only [absorb, recorded_nil, Transcript.recordAll, List.foldl_nil]

theorem passTo_eq (machine : Machine) (store : Store) :
    machine.passTo store = machine.absorb ⟨store, [⟨machine.line, store.entries⟩], none⟩ := by
  cases h : machine.settings.recordDumps <;>
    simp [passTo, dump, absorb, recorded, Transcript.recordAll, h]

theorem passThrough_eq (machine : Machine) (stores : List Store) :
    machine.passThrough stores =
      machine.absorb ⟨stores.getLast?.getD machine.store,
        stores.map (⟨machine.line, ·.entries⟩), none⟩ := by
  induction stores generalizing machine with
  | nil => exact (machine.absorb_fault none).symm
  | cons store rest ih =>
    have hstep : machine.passThrough (store :: rest) = (machine.passTo store).passThrough rest := rfl
    rw [hstep, ih, passTo_eq, absorb_absorb, List.getLast?_cons]
    rfl

theorem perform_eq_absorb (machine : Machine) (instruction : Instruction) :
    machine.perform instruction =
      ⟨machine.absorb (machine.effect instruction), (machine.effect instruction).fault⟩ := by
  rw [perform_eq, effect]
  cases machine.stages instruction with
  | ok stores => simp only [attempt, passThrough_eq]
  | error fault => simp only [attempt, absorb_fault]

@[simp] theorem perform_settings (machine : Machine) (instruction : Instruction) :
    (machine.perform instruction).machine.settings = machine.settings := by
  rw [perform_eq_absorb]
  rfl

@[simp] theorem perform_line (machine : Machine) (instruction : Instruction) :
    (machine.perform instruction).machine.line = machine.line := by
  rw [perform_eq_absorb]
  rfl

/-- Performs instructions in order; one that faults is passed over. -/
def performAll (machine : Machine) (program : List Instruction) : Machine :=
  program.foldl (fun before instruction => (before.perform instruction).machine) machine

/-- **`execute_eq`**: a line is counted, and then its effect is taken over. -/
theorem execute_eq (machine : Machine) (line : String) :
    machine.execute line =
      ⟨machine.nextLine.absorb (machine.lineEffect line), (machine.lineEffect line).fault⟩ := by
  rw [execute, lineEffect]
  cases Instruction.ofLine line with
  | ok instruction => exact perform_eq_absorb machine.nextLine instruction
  | error fault =>
    have hnone := machine.nextLine.absorb_fault (some fault)
    simp only [nextLine] at hnone ⊢
    rw [hnone]

@[simp] theorem execute_settings (machine : Machine) (line : String) :
    (machine.execute line).machine.settings = machine.settings := by
  rw [execute_eq]
  rfl

@[simp] theorem execute_line (machine : Machine) (line : String) :
    (machine.execute line).machine.line = machine.line + 1 := by
  rw [execute_eq]
  rfl

theorem length_dumps_le (machine : Machine) (line : String) :
    (machine.lineEffect line).dumps.length ≤ 2 := by
  unfold lineEffect
  split
  · unfold effect
    split
    · rename_i stores hstages
      rw [List.length_map]
      exact length_stages_le hstages
    · exact Nat.zero_le 2
  · exact Nat.zero_le 2

/-- Two machines with the same store, decrement rule and line count; what they have recorded and how
they record may differ. -/
structure Alike (a b : Machine) : Prop where
  store : a.store = b.store
  line : a.line = b.line
  rule : a.settings.decrement = b.settings.decrement

/-- Machines that are alike do the same on every line. -/
theorem Alike.lineEffect_eq {a b : Machine} (h : a.Alike b) (line : String) :
    a.lineEffect line = b.lineEffect line := by
  have hline : a.nextLine.line = b.nextLine.line := congrArg (· + 1) h.line
  have hstore : a.nextLine.store = b.nextLine.store := h.store
  unfold lineEffect
  split
  · rename_i instruction _
    have hstages : a.nextLine.stages instruction = b.nextLine.stages instruction :=
      stages_congr h.store h.rule instruction
    simp only [effect, hstages, hline, hstore]
  · rw [h.store]

theorem Alike.execute {a b : Machine} (h : a.Alike b) (line : String) :
    (a.execute line).fault = (b.execute line).fault ∧
      (a.execute line).machine.Alike (b.execute line).machine := by
  have heffect := h.lineEffect_eq line
  rw [execute_eq, execute_eq, heffect]
  exact ⟨rfl, rfl, congrArg (· + 1) h.line, h.rule⟩

end Machine

end HexMachine
