import HexMachine.Proofs.Machine.Provenance
import HexMachine.Proofs.Machine.Targets

/-!
# Which fault, exactly

Every instruction has requirements on the names it is given, in a fixed order, and each of them is
about the store before the instruction. Main statement `fault_is_first_breach`: the fault of an
instruction is that of its first requirement that is not met, and there is none if all are met. For
a line that cannot be read, it is the fault of reading.

The checks of an instruction are spread over the operations that it is made of. `Demands` says of
such an operation which requirements it checks, and follows the order in which operations are put
together. The requirements of a decrement are those of an increment, whatever the rule: the second
increment of the legacy rule has no say.
-/
namespace HexMachine

/-! ## Requirements -/

/-- What an instruction requires of names. -/
inductive Requirement where
  /-- The name may be declared. -/
  | valid (name : String)
  /-- The name is bound; it is looked up as this operand. -/
  | bound (operand : Operand) (name : String)
  /-- The text under the name, if there is one, can be read. -/
  | readable (name : String)
  /-- The text under the second name does not read as zero, by which the first is to be divided. -/
  | divisible (dest src : String)
deriving DecidableEq, Repr

/-- The fault that a requirement is reported with if it is not met. -/
def Requirement.breach? (store : Store) : Requirement → Option Fault
  | .valid name => if Name.isValid name then none else some (.invalidName name)
  | .bound operand name =>
    if (store.key? name).isSome then none else some (.unknownRegister operand name)
  | .readable name =>
    match store.get? name with
    | none => none
    | some text => if (Word.read text).isOk then none else some (.notNumeric text)
  | .divisible dest src =>
    if store.word? src = some 0 then some (.divisionByZero dest src) else none

namespace Instruction

/-- Both operands are bound, and then both can be read. -/
def operandRequirements (dest src : String) : List Requirement :=
  [.bound .destination dest, .bound .source src, .readable dest, .readable src]

/-- The requirements of an instruction, in the order in which they are checked. -/
def requirements : Instruction → List Requirement
  | .declare name _ _ => [.valid name]
  | .binary op dest src =>
    operandRequirements dest src ++ if op = .div then [.divisible dest src] else []
  | .move dest src => .valid dest :: operandRequirements dest src
  | .exchange dest src => operandRequirements dest src
  | .increment dest => [.bound .destination dest, .readable dest]
  | .decrement dest => [.bound .destination dest, .readable dest]

end Instruction

/-- The fault of the first requirement that is not met. -/
def firstBreach? (store : Store) (requirements : List Requirement) : Option Fault :=
  requirements.findSome? (·.breach? store)

/-! ## What the operations check -/

/-- The fault with which a check ends, if it does not pass. -/
def faultOf {α : Type} : Except Fault α → Option Fault
  | .ok _ => none
  | .error fault => some fault

/-- The check ends as the requirements say. -/
def Demands {α : Type} (store : Store) (check : Except Fault α) (requirements : List Requirement) :
    Prop :=
  faultOf check = firstBreach? store requirements

namespace Demands

variable {α β : Type} {store : Store} {check : Except Fault α}

theorem map {requirements : List Requirement} (h : Demands store check requirements) (change : α → β) :
    Demands store (check.map change) requirements := by
  cases check <;> exact h

/-- One check after another: the requirements of the second count if the first passes. -/
theorem bind {first second : List Requirement} {next : α → Except Fault β}
    (h : Demands store check first)
    (hnext : ∀ a, check = .ok a → Demands store (next a) second) :
    Demands store (check >>= next) (first ++ second) := by
  rw [Demands, firstBreach?, List.findSome?_append, ← firstBreach?, ← h]
  cases check with
  | error fault => rfl
  | ok a => exact hnext a rfl

/-- A check that passes because there is nothing to check. -/
theorem pure (a : α) : Demands store (.ok a : Except Fault α) [] := rfl

end Demands

namespace Machine

theorem demands_validName (store : Store) (name : String) :
    Demands store (validName name) [.valid name] := by
  by_cases hvalid : Name.isValid name = true <;>
    simp [Demands, firstBreach?, Requirement.breach?, validName, faultOf, hvalid]

theorem demands_numeric {store : Store} {name text : String} (h : store.get? name = some text) :
    Demands store (numeric text) [.readable name] := by
  cases hread : Word.read text <;>
    simp [Demands, firstBreach?, Requirement.breach?, numeric, faultOf, h, hread, Except.isOk,
      Except.toBool]

/-- Of two words that were read, only a divisor of zero has no result. -/
theorem demands_apply {store : Store} {src : String} {rhs : Word}
    (h : store.word? src = some rhs) (op : BinaryOp) (dest : String) (lhs : Word) :
    Demands store
      (match op.apply lhs rhs with
        | some word => .ok word
        | none => .error (.divisionByZero dest src))
      (if op = .div then [.divisible dest src] else []) := by
  cases hresult : op.apply lhs rhs with
  | none =>
    obtain ⟨rfl, rfl⟩ := BinaryOp.apply_eq_none_iff.1 hresult
    simp [Demands, firstBreach?, Requirement.breach?, faultOf, h]
  | some word =>
    have hfine : ¬ (op = .div ∧ rhs = 0) := by
      intro hzero
      have hnone : op.apply lhs rhs = none := BinaryOp.apply_eq_none_iff.2 hzero
      rw [hresult] at hnone
      cases hnone
    by_cases hdiv : op = .div
    · have hzero : rhs ≠ 0 := fun hzero => hfine ⟨hdiv, hzero⟩
      simp [Demands, firstBreach?, Requirement.breach?, faultOf, h, hdiv, hzero]
    · rw [if_neg hdiv]
      exact .pure word

section

variable {machine : Machine} (haligned : machine.store.Aligned)
include haligned

theorem demands_fetch (operand : Operand) (name : String) :
    Demands machine.store (machine.fetch operand name) [.bound operand name] := by
  have hbound := haligned.get?_isSome name
  cases hget : machine.store.get? name with
  | none =>
    rw [hget, Option.isSome_none] at hbound
    simp [Demands, firstBreach?, Requirement.breach?, fetch, faultOf, hget, ← hbound]
  | some text =>
    rw [hget, Option.isSome_some] at hbound
    simp [Demands, firstBreach?, Requirement.breach?, fetch, faultOf, hget, ← hbound]

theorem demands_wordAt (dest : String) :
    Demands machine.store (machine.wordAt dest) [.bound .destination dest, .readable dest] := by
  refine (demands_fetch haligned .destination dest).bind fun text htext => ?_
  exact demands_numeric (get?_of_fetch htext)

theorem demands_fetchPair (dest src : String) :
    Demands machine.store (machine.fetchPair dest src)
      [.bound .destination dest, .bound .source src] := by
  refine (demands_fetch haligned .destination dest).bind fun destText _ => ?_
  refine (demands_fetch haligned .source src).bind fun srcText _ => ?_
  exact .pure (destText, srcText)

/-- Two operands are looked up and then read; what comes after that may require more. -/
theorem demands_operands {α : Type} {dest src : String} {later : List Requirement}
    {next : String × String → Word → Word → Except Fault α}
    (h : ∀ texts lhs rhs, machine.store.word? src = some rhs →
      Demands machine.store (next texts lhs rhs) later) :
    Demands machine.store (do
      let texts ← machine.fetchPair dest src
      let lhs ← numeric texts.1
      let rhs ← numeric texts.2
      next texts lhs rhs) (Instruction.operandRequirements dest src ++ later) := by
  refine (demands_fetchPair haligned dest src).bind fun texts htexts => ?_
  obtain ⟨hdest, hsrc⟩ := get?_of_fetchPair htexts
  refine (demands_numeric hdest).bind fun lhs _ => ?_
  refine (demands_numeric hsrc).bind fun rhs hrhs => ?_
  exact h texts lhs rhs (Store.word?_eq_some_iff.2 ⟨texts.2, hsrc, read_of_numeric hrhs⟩)

theorem demands_numericPair (dest src : String) :
    Demands machine.store (machine.numericPair dest src)
      (Instruction.operandRequirements dest src) := by
  have h : Demands machine.store (machine.numericPair dest src)
      (Instruction.operandRequirements dest src ++ []) :=
    demands_operands haligned fun texts _ _ _ => .pure texts
  rwa [List.append_nil] at h

theorem demands_binaryResult (op : BinaryOp) (dest src : String) :
    Demands machine.store (machine.binaryResult op dest src)
      (Instruction.binary op dest src).requirements :=
  demands_operands haligned fun _ lhs _ hrhs => demands_apply hrhs op dest lhs

/-- **`demands_writes`**: an instruction checks its requirements, one kind at a time. -/
theorem demands_writes (instruction : Instruction) :
    Demands machine.store (machine.writes instruction) instruction.requirements := by
  cases instruction with
  | declare name width literal => exact (demands_validName machine.store name).map _
  | binary op dest src => exact (demands_binaryResult haligned op dest src).map _
  | move dest src =>
    have hname := demands_validName machine.store dest
    exact (hname.bind fun _ _ => demands_numericPair haligned dest src).map _
  | exchange dest src => exact (demands_numericPair haligned dest src).map _
  | increment dest => exact (demands_wordAt haligned dest).map _
  | decrement dest => exact (demands_wordAt haligned dest).map _

theorem fault_perform_eq (instruction : Instruction) :
    (machine.perform instruction).fault =
      firstBreach? machine.store instruction.requirements := by
  rw [← demands_writes haligned instruction]
  cases hwrites : machine.writes instruction with
  | ok list => exact (perform_of_writes hwrites).1
  | error fault => exact (perform_of_error hwrites).1

end

end Machine

/-! ## The fault that is reported -/

/-- A requirement of an instruction is reported as one of four faults. -/
theorem Requirement.breach?_cases {store : Store} {requirement : Requirement} {fault : Fault}
    (h : requirement.breach? store = some fault) :
    (∃ name, fault = .invalidName name) ∨ (∃ operand name, fault = .unknownRegister operand name) ∨
      (∃ text, fault = .notNumeric text) ∨ ∃ dest src, fault = .divisionByZero dest src := by
  cases requirement with
  | valid name =>
    obtain ⟨-, rfl⟩ : _ ∧ _ = fault := by simpa [breach?] using h
    exact .inl ⟨name, rfl⟩
  | bound operand name =>
    obtain ⟨-, rfl⟩ : _ ∧ _ = fault := by simpa [breach?] using h
    exact .inr (.inl ⟨operand, name, rfl⟩)
  | readable name =>
    cases hget : store.get? name with
    | none => simp [breach?, hget] at h
    | some text =>
      obtain ⟨-, rfl⟩ : _ ∧ _ = fault := by simpa [breach?, hget] using h
      exact .inr (.inr (.inl ⟨text, rfl⟩))
  | divisible dest src =>
    obtain ⟨-, rfl⟩ : _ ∧ _ = fault := by simpa [breach?] using h
    exact .inr (.inr (.inr ⟨dest, src, rfl⟩))

theorem firstBreach?_eq_some_iff {store : Store} {requirements : List Requirement} {fault : Fault} :
    firstBreach? store requirements = some fault ↔
      ∃ met requirement others, requirements = met ++ requirement :: others ∧
        (∀ earlier ∈ met, earlier.breach? store = none) ∧ requirement.breach? store = some fault := by
  rw [firstBreach?, List.findSome?_eq_some_iff]
  simp only [and_comm]

namespace Machine

/-- **`fault_is_first_breach`**: on a machine that commands have led to, the fault of an instruction
is that of its first requirement that is not met, in the order of `Instruction.requirements`, and
there is no fault if and only if all of them are met. So a fault is about a name, an operand, a text
or a division, and nothing else; and a decrement has the fault of an increment, by either rule. A
line has the fault of reading it, if there is one, and else that of its instruction. -/
theorem fault_is_first_breach (settings : Settings) (commands : List Command) :
    let machine := (fresh settings).obeyAll commands
    (∀ instruction fault, (machine.perform instruction).fault = some fault ↔
      ∃ met requirement others, instruction.requirements = met ++ requirement :: others ∧
        (∀ earlier ∈ met, earlier.breach? machine.store = none) ∧
        requirement.breach? machine.store = some fault) ∧
    (∀ instruction, (machine.perform instruction).fault = none ↔
      ∀ requirement ∈ instruction.requirements, requirement.breach? machine.store = none) ∧
    (∀ instruction fault, (machine.perform instruction).fault = some fault →
      (∃ name, fault = .invalidName name) ∨
      (∃ operand name, fault = .unknownRegister operand name) ∨
      (∃ text, fault = .notNumeric text) ∨ ∃ dest src, fault = .divisionByZero dest src) ∧
    (∀ dest, (machine.perform (.decrement dest)).fault =
      (machine.perform (.increment dest)).fault) ∧
    (∀ line, (machine.execute line).fault =
      match Instruction.ofLine line with
      | .error fault => some fault
      | .ok instruction => (machine.perform instruction).fault) := by
  intro machine
  have haligned : machine.store.Aligned := (declared_obeyAll settings commands).gapless.aligned
  have hfault := fault_perform_eq haligned
  refine ⟨fun instruction fault => ?_, fun instruction => ?_, fun instruction fault h => ?_,
    fun dest => ?_, fun line => ?_⟩
  · rw [hfault, firstBreach?_eq_some_iff]
  · rw [hfault, firstBreach?, List.findSome?_eq_none_iff]
  · rw [hfault, firstBreach?_eq_some_iff] at h
    obtain ⟨-, requirement, -, -, -, hbreach⟩ := h
    exact requirement.breach?_cases hbreach
  · rw [hfault, hfault]
    rfl
  · unfold execute
    cases Instruction.ofLine line with
    | error fault => rfl
    | ok instruction => exact machine.fault_nextLine_perform instruction

/-- Where two requirements are not met: an unbound source comes before a destination that cannot be
read, and a name that may not be declared before one that is not bound. A division by minus zero, a
legacy decrement that passes, and a line on which nothing is required. -/
theorem fault_is_first_breach_order :
    let commands : List Command := [.execute "A DB zz", .emit "B DW -0", .execute "C DD 5"]
    let machine := (fresh {}).obeyAll commands
    (machine.perform (.exchange "A" "Q")).fault = some (.unknownRegister .source "Q") ∧
    (machine.perform (.move "1x" "Q")).fault = some (.invalidName "1x") ∧
    (machine.perform (.binary .div "C" "B")).fault = some (.divisionByZero "C" "B") ∧
    (machine.perform (.decrement "C")).fault = none ∧
    (machine.execute "DEC").fault = some (.missingArguments "DEC" 1 0) := by
  intro commands machine
  obtain ⟨hfault, hnone, -, -, hline⟩ := fault_is_first_breach {} commands
  refine ⟨?_, ?_, ?_, (hnone (.decrement "C")).2 (by decide), hline "DEC"⟩
  · exact (hfault _ _).2 ⟨[.bound .destination "A"], .bound .source "Q",
      [.readable "A", .readable "Q"], rfl, by decide, by decide⟩
  · exact (hfault _ _).2 ⟨[], .valid "1x", Instruction.operandRequirements "1x" "Q", rfl,
      by decide, by decide⟩
  · exact (hfault _ _).2 ⟨Instruction.operandRequirements "C" "B", .divisible "C" "B", [], rfl,
      by decide, by decide⟩

end Machine

end HexMachine
