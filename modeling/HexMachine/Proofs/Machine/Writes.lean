import HexMachine.Proofs.Machine.Change

/-!
# What an instruction writes

An instruction comes to a list of writes or to a fault. Both are found from the texts under the names
it touches, `writes_congr`, and all that is written is under the names it is said to write,
`map_fst_writes`. So what it leaves under any other name is what was there: `get?_perform_of_not_mem`.

The legacy decrement passes through two stores, but what it comes to is a single write of the operand
with two added.
-/
namespace HexMachine

namespace Instruction

/-- The names that an instruction is about: the name it declares, or its operands. -/
@[simp] def touched : Instruction → List String
  | .declare name _ _ => [name]
  | .binary _ dest src => [dest, src]
  | .move dest src => [dest, src]
  | .exchange dest src => [dest, src]
  | .increment dest => [dest]
  | .decrement dest => [dest]

/-- The names that an instruction writes: the name it declares, its destination, or both operands of
an exchange. -/
@[simp] def written : Instruction → List String
  | .declare name _ _ => [name]
  | .binary _ dest _ => [dest]
  | .move dest _ => [dest]
  | .exchange dest src => [dest, src]
  | .increment dest => [dest]
  | .decrement dest => [dest]

theorem mem_touched_of_mem_written {instruction : Instruction} {name : String}
    (h : name ∈ instruction.written) : name ∈ instruction.touched := by
  cases instruction <;> simp_all

end Instruction

namespace Machine

/-- What a decrement adds to its operand, in all. -/
def decrementDelta (machine : Machine) : Word :=
  match machine.settings.decrement with
  | .legacy => 1 + 1
  | .subtract => -1

/-- The writes that an instruction comes to, or its fault. -/
def writes (machine : Machine) : Instruction → Except Fault (List (String × Content))
  | .declare name _ literal => (validName name).map fun _ => [(name, .text literal)]
  | .binary op dest src =>
    (machine.binaryResult op dest src).map fun word => [(dest, .word word)]
  | .move dest src =>
    (validName dest >>= fun _ => machine.numericPair dest src).map fun texts =>
      [(dest, .text texts.2)]
  | .exchange dest src =>
    (machine.numericPair dest src).map fun texts => [(dest, .text texts.2), (src, .text texts.1)]
  | .increment dest => (machine.wordAt dest).map fun word => [(dest, .word (word + 1))]
  | .decrement dest =>
    (machine.wordAt dest).map fun word => [(dest, .word (word + machine.decrementDelta))]

/-! ## What an instruction leaves -/

theorem map_map_congr {α β γ δ : Type} {check : Except Fault α} {f : α → β} {g : α → γ} {p : β → δ}
    {q : γ → δ} (h : ∀ a, p (f a) = q (g a)) : (check.map f).map p = (check.map g).map q := by
  cases check with
  | error fault => rfl
  | ok a => exact congrArg Except.ok (h a)

/-- The last stage of an instruction is the store with all that is written. -/
theorem lastStage_eq_setAll (machine : Machine) (instruction : Instruction) :
    (machine.stages instruction).map (·.getLast?.getD machine.store) =
      (machine.writes instruction).map machine.store.setAll := by
  cases instruction with
  | decrement dest =>
    refine map_map_congr fun word => ?_
    unfold decrementDelta
    cases machine.settings.decrement with
    | legacy => rw [← Int64.add_assoc]; rfl
    | subtract => rfl
  | _ => exact map_map_congr fun _ => rfl

section

variable {machine : Machine} {instruction : Instruction}

theorem perform_of_writes {list : List (String × Content)}
    (h : machine.writes instruction = .ok list) :
    (machine.perform instruction).fault = none ∧
      (machine.perform instruction).machine.store = machine.store.setAll list := by
  have hlast := machine.lastStage_eq_setAll instruction
  rw [h] at hlast
  obtain ⟨stores, hstages, hstore⟩ := ok_of_map hlast
  rw [perform_eq_absorb, effect, hstages]
  exact ⟨rfl, hstore⟩

theorem perform_of_error {fault : Fault} (h : machine.writes instruction = .error fault) :
    (machine.perform instruction).fault = some fault ∧
      (machine.perform instruction).machine.store = machine.store := by
  have hlast := machine.lastStage_eq_setAll instruction
  rw [h] at hlast
  rw [perform_eq_absorb, effect]
  cases hstages : machine.stages instruction with
  | ok stores =>
    rw [hstages] at hlast
    cases hlast
  | error found =>
    rw [hstages] at hlast
    cases hlast
    exact ⟨rfl, rfl⟩

theorem writes_of_fault {fault : Fault} (h : (machine.perform instruction).fault = some fault) :
    machine.writes instruction = .error fault := by
  cases hwrites : machine.writes instruction with
  | ok list =>
    rw [(perform_of_writes hwrites).1] at h
    cases h
  | error found =>
    rw [(perform_of_error hwrites).1] at h
    rw [Option.some.inj h]

theorem writes_of_success (h : (machine.perform instruction).fault = none) :
    ∃ list, machine.writes instruction = .ok list := by
  cases hwrites : machine.writes instruction with
  | ok list => exact ⟨list, rfl⟩
  | error fault =>
    rw [(perform_of_error hwrites).1] at h
    cases h

theorem map_fst_writes {list : List (String × Content)}
    (h : machine.writes instruction = .ok list) : list.map Prod.fst = instruction.written := by
  cases instruction <;>
  · obtain ⟨_, -, rfl⟩ := ok_of_map h
    rfl

/-- **Frame**: the text under a name that an instruction does not write stays, whether or not there
is a fault. -/
theorem get?_perform_of_not_mem (haligned : machine.store.Aligned) {name : String}
    (h : name ∉ instruction.written) :
    (machine.perform instruction).machine.store.get? name = machine.store.get? name := by
  cases hwrites : machine.writes instruction with
  | error fault => rw [(perform_of_error hwrites).2]
  | ok list =>
    rw [(perform_of_writes hwrites).2]
    rw [← map_fst_writes hwrites] at h
    exact haligned.get?_setAll_of_not_mem h

/-- A name that an instruction does not write keeps its key, or stays without one. -/
theorem key?_perform_of_not_mem {name : String} (h : name ∉ instruction.written) :
    (machine.perform instruction).machine.store.key? name = machine.store.key? name := by
  cases hwrites : machine.writes instruction with
  | error fault => rw [(perform_of_error hwrites).2]
  | ok list =>
    rw [(perform_of_writes hwrites).2]
    rw [← map_fst_writes hwrites] at h
    exact Store.key?_setAll_of_not_mem h

end

/-! ## What an instruction reads -/

section

variable {a b : Machine}

theorem fetch_congr {name : String} (h : a.store.get? name = b.store.get? name)
    (operand : Operand) : a.fetch operand name = b.fetch operand name := by
  rw [fetch, fetch, h]

theorem fetchPair_congr {dest src : String} (hdest : a.store.get? dest = b.store.get? dest)
    (hsrc : a.store.get? src = b.store.get? src) : a.fetchPair dest src = b.fetchPair dest src := by
  rw [fetchPair, fetchPair, fetch_congr hdest, fetch_congr hsrc]

/-- What an instruction comes to depends on the decrement rule and on the texts under the names it
touches. -/
theorem writes_congr (hrule : a.settings.decrement = b.settings.decrement)
    {instruction : Instruction}
    (h : ∀ name ∈ instruction.touched, a.store.get? name = b.store.get? name) :
    a.writes instruction = b.writes instruction := by
  cases instruction with
  | declare name width literal => rfl
  | binary op dest src =>
    have hpair := fetchPair_congr (h dest (by simp)) (h src (by simp))
    simp only [writes, binaryResult, hpair]
  | move dest src =>
    have hpair := fetchPair_congr (h dest (by simp)) (h src (by simp))
    simp only [writes, numericPair, hpair]
  | exchange dest src =>
    have hpair := fetchPair_congr (h dest (by simp)) (h src (by simp))
    simp only [writes, numericPair, hpair]
  | increment dest =>
    have hfetch := fetch_congr (h dest (by simp)) .destination
    simp only [writes, wordAt, hfetch]
  | decrement dest =>
    have hfetch := fetch_congr (h dest (by simp)) .destination
    simp only [writes, wordAt, hfetch, decrementDelta, hrule]

end

end Machine

end HexMachine
