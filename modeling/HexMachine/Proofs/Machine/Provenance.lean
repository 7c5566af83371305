import HexMachine.Proofs.Instruction.Decision
import HexMachine.Proofs.Machine.Binding
import HexMachine.Proofs.Machine.Writes

/-!
# Where unreadable texts come from

A text that cannot be read as a number may be declared, but nothing can be done with it. Main
statement `unreadable_texts_are_literals`: if a machine reports that a text is no number, that text
is word for word the literal of an earlier declaration. So if all declared literals can be read, all
texts can, and an instruction on bound names cannot fail but for a division by zero.

Two facts are put together. A fault is reported for an obstacle that can be pointed out in the
store, `obstacle_of_fault`. And every text in the store was declared or is that of a word, which can
be read, `origin_of_stored`.
-/
namespace HexMachine

/-! ## What a fault points out -/

/-- What stands in the way of an instruction, with the fault it is reported as. -/
inductive Obstacle (machine : Machine) (instruction : Instruction) : Fault → Prop where
  | invalidName {name : String} (written : name ∈ instruction.written)
      (invalid : Name.isValid name = false) : Obstacle machine instruction (.invalidName name)
  | unbound {operand : Operand} {name : String} (touched : name ∈ instruction.touched)
      (absent : machine.store.get? name = none) :
    Obstacle machine instruction (.unknownRegister operand name)
  | notNumeric {name text : String} {error : Word.ReadError} (touched : name ∈ instruction.touched)
      (present : machine.store.get? name = some text) (unreadable : Word.read text = .error error) :
    Obstacle machine instruction (.notNumeric text)
  | zeroDivisor {dest src text : String} (division : instruction = .binary .div dest src)
      (present : machine.store.get? src = some text) (zero : Word.read text = .ok 0) :
    Obstacle machine instruction (.divisionByZero dest src)

namespace Machine

theorem error_of_bind {α β : Type} {check : Except Fault α} {next : α → Except Fault β}
    {fault : Fault} (h : check >>= next = .error fault) :
    check = .error fault ∨ ∃ a, check = .ok a ∧ next a = .error fault := by
  cases check with
  | error found =>
    cases h
    exact .inl rfl
  | ok a => exact .inr ⟨a, rfl, h⟩

theorem error_of_map {α β : Type} {check : Except Fault α} {change : α → β} {fault : Fault}
    (h : check.map change = .error fault) : check = .error fault := by
  cases check with
  | error found =>
    cases h
    rfl
  | ok a => cases h

section

variable {machine : Machine} {instruction : Instruction} {fault : Fault}

theorem obstacle_of_validName {name : String} (hname : name ∈ instruction.written)
    (h : validName name = .error fault) : Obstacle machine instruction fault := by
  unfold validName at h
  split at h
  · cases h
  · rename_i hvalid
    cases h
    exact .invalidName hname (Bool.eq_false_iff.2 hvalid)

theorem obstacle_of_fetch {operand : Operand} {name : String} (hname : name ∈ instruction.touched)
    (h : machine.fetch operand name = .error fault) : Obstacle machine instruction fault := by
  unfold fetch at h
  split at h
  · cases h
  · rename_i habsent
    cases h
    exact .unbound hname habsent

theorem obstacle_of_numeric {name text : String} (hname : name ∈ instruction.touched)
    (htext : machine.store.get? name = some text) (h : numeric text = .error fault) :
    Obstacle machine instruction fault := by
  unfold numeric at h
  split at h
  · cases h
  · rename_i hread
    cases h
    exact .notNumeric hname htext hread

theorem obstacle_of_wordAt {dest : String} (hdest : dest ∈ instruction.touched)
    (h : machine.wordAt dest = .error fault) : Obstacle machine instruction fault := by
  rcases error_of_bind h with h | ⟨text, htext, h⟩
  · exact obstacle_of_fetch hdest h
  · exact obstacle_of_numeric hdest (get?_of_fetch htext) h

theorem obstacle_of_fetchPair {dest src : String} (hdest : dest ∈ instruction.touched)
    (hsrc : src ∈ instruction.touched) (h : machine.fetchPair dest src = .error fault) :
    Obstacle machine instruction fault := by
  rcases error_of_bind h with h | ⟨destText, -, h⟩
  · exact obstacle_of_fetch hdest h
  · rcases error_of_bind h with h | ⟨srcText, -, h⟩
    · exact obstacle_of_fetch hsrc h
    · cases h

/-- A computation that reads two operands and goes on with them: there is an obstacle, or both are
numbers and the fault comes later. -/
theorem obstacle_of_operands {α : Type} {dest src : String} (hdest : dest ∈ instruction.touched)
    (hsrc : src ∈ instruction.touched) {next : String × String → Word → Word → Except Fault α}
    (h : (do
      let texts ← machine.fetchPair dest src
      let lhs ← numeric texts.1
      let rhs ← numeric texts.2
      next texts lhs rhs) = .error fault) :
    Obstacle machine instruction fault ∨ ∃ texts lhs rhs, machine.store.get? src = some texts.2 ∧
      Word.read texts.2 = .ok rhs ∧ next texts lhs rhs = .error fault := by
  rcases error_of_bind h with h | ⟨texts, htexts, h⟩
  · exact .inl (obstacle_of_fetchPair hdest hsrc h)
  · obtain ⟨hdestText, hsrcText⟩ := get?_of_fetchPair htexts
    rcases error_of_bind h with h | ⟨lhs, -, h⟩
    · exact .inl (obstacle_of_numeric hdest hdestText h)
    · rcases error_of_bind h with h | ⟨rhs, hrhs, h⟩
      · exact .inl (obstacle_of_numeric hsrc hsrcText h)
      · exact .inr ⟨texts, lhs, rhs, hsrcText, read_of_numeric hrhs, h⟩

theorem obstacle_of_numericPair {dest src : String} (hdest : dest ∈ instruction.touched)
    (hsrc : src ∈ instruction.touched) (h : machine.numericPair dest src = .error fault) :
    Obstacle machine instruction fault := by
  rcases obstacle_of_operands hdest hsrc h with h | ⟨_, _, _, -, -, h⟩
  · exact h
  · cases h

theorem obstacle_of_binaryResult {op : BinaryOp} {dest src : String}
    (h : machine.binaryResult op dest src = .error fault) :
    Obstacle machine (.binary op dest src) fault := by
  have hdest : dest ∈ (Instruction.binary op dest src).touched := by simp
  have hsrc : src ∈ (Instruction.binary op dest src).touched := by simp
  rcases obstacle_of_operands hdest hsrc h with h | ⟨texts, lhs, rhs, hsrcText, hrhs, h⟩
  · exact h
  · cases hresult : op.apply lhs rhs with
    | some word =>
      simp only [hresult] at h
      cases h
    | none =>
      simp only [hresult] at h
      cases h
      obtain ⟨rfl, rfl⟩ := BinaryOp.apply_eq_none_iff.1 hresult
      exact .zeroDivisor rfl hsrcText hrhs

/-- **`obstacle_of_fault`**: whenever an instruction has a fault, the obstacle is there. -/
theorem obstacle_of_fault (h : (machine.perform instruction).fault = some fault) :
    Obstacle machine instruction fault := by
  have hwrites := writes_of_fault h
  cases instruction with
  | declare name width literal =>
    exact obstacle_of_validName (by simp) (error_of_map hwrites)
  | binary op dest src => exact obstacle_of_binaryResult (error_of_map hwrites)
  | move dest src =>
    rcases error_of_bind (error_of_map hwrites) with hname | ⟨_, -, hpair⟩
    · exact obstacle_of_validName (by simp) hname
    · exact obstacle_of_numericPair (by simp) (by simp) hpair
  | exchange dest src =>
    exact obstacle_of_numericPair (by simp) (by simp) (error_of_map hwrites)
  | increment dest =>
    exact obstacle_of_wordAt (by simp) (error_of_map hwrites)
  | decrement dest =>
    exact obstacle_of_wordAt (by simp) (error_of_map hwrites)

end

end Machine

/-! ## Faults of commands -/

namespace Instruction

/-- Reading an instruction does not look at numbers. -/
theorem ofLine_ne_notNumeric (line text : String) : ofLine line ≠ .error (.notNumeric text) := by
  intro h
  rcases fault_of_ofTokens h with ⟨-, hfault⟩ | ⟨_, _, _, hfault⟩ | hfault <;> cases hfault

end Instruction

namespace Machine

theorem fault_nextLine_perform (machine : Machine) (instruction : Instruction) :
    (machine.nextLine.perform instruction).fault = (machine.perform instruction).fault := by
  have hstages : machine.nextLine.stages instruction = machine.stages instruction :=
    stages_congr rfl rfl instruction
  rw [perform_eq_absorb, perform_eq_absorb, effect, effect, hstages]
  cases machine.stages instruction <;> rfl

theorem fault_execute (machine : Machine) (line : String) :
    (∃ instruction, (Instruction.ofLine line).toOption = some instruction ∧
      (machine.execute line).fault = (machine.perform instruction).fault) ∨
    ((Instruction.ofLine line).toOption = none ∧ ∃ fault, Instruction.ofLine line = .error fault ∧
      (machine.execute line).fault = some fault) := by
  unfold execute
  cases Instruction.ofLine line with
  | ok instruction => exact .inl ⟨instruction, rfl, machine.fault_nextLine_perform instruction⟩
  | error fault => exact .inr ⟨rfl, fault, rfl, rfl⟩

/-- A command has the fault of the instruction in it, or that of a line that holds none. -/
theorem fault_obey (machine : Machine) (command : Command) :
    (∃ instruction, command.instruction? = some instruction ∧
      (machine.obey command).fault = (machine.perform instruction).fault) ∨
    (command.instruction? = none ∧ ∃ line fault, Instruction.ofLine line = .error fault ∧
      (machine.obey command).fault = some fault) := by
  cases command with
  | execute line =>
    exact (machine.fault_execute line).imp_right fun ⟨hnone, found⟩ => ⟨hnone, line, found⟩
  | emit line =>
    rw [obey, emit_fault]
    exact (machine.fault_execute line).imp_right fun ⟨hnone, found⟩ => ⟨hnone, line, found⟩
  | perform instruction => exact .inl ⟨instruction, rfl, rfl⟩

theorem fault_obey_of_some (machine : Machine) {command : Command} {instruction : Instruction}
    (h : command.instruction? = some instruction) :
    (machine.obey command).fault = (machine.perform instruction).fault := by
  rcases machine.fault_obey command with ⟨found, hfound, hfault⟩ | ⟨hnone, -⟩
  · rw [h] at hfound
    rw [hfault, Option.some.inj hfound]
  · rw [h] at hnone
    cases hnone

/-- A text that is reported to be no number is in the store, and it cannot be read. -/
theorem stored_of_notNumeric {machine : Machine} {command : Command} {text : String}
    (h : (machine.obey command).fault = some (.notNumeric text)) :
    (∃ name, machine.store.get? name = some text) ∧ ∃ error, Word.read text = .error error := by
  rcases machine.fault_obey command with ⟨instruction, -, hfault⟩ | ⟨-, line, fault, hread, hfault⟩
  · rw [hfault] at h
    cases obstacle_of_fault h with
    | notNumeric touched present unreadable => exact ⟨⟨_, present⟩, _, unreadable⟩
  · rw [hfault] at h
    cases h
    exact absurd hread (Instruction.ofLine_ne_notNumeric line text)

/-! ## Where texts come from -/

/-- One of the commands declares the literal, without a fault. -/
def DeclaresLiteral (start : Machine) (commands : List Command) (literal : String) : Prop :=
  ∃ before command later name width, commands = before ++ command :: later ∧
    command.instruction? = some (.declare name width literal) ∧
    ((start.obeyAll before).obey command).fault = none

theorem DeclaresLiteral.concat {start : Machine} {commands : List Command} {literal : String}
    (h : start.DeclaresLiteral commands literal) (command : Command) :
    start.DeclaresLiteral (commands ++ [command]) literal := by
  obtain ⟨before, declaration, later, name, width, rfl, hinstruction, hfault⟩ := h
  exact ⟨before, declaration, later ++ [command], name, width, by simp, hinstruction, hfault⟩

/-- Where a text in the store can come from: it was declared, or a word was written. -/
inductive Origin (start : Machine) (commands : List Command) : String → Prop where
  | declared {literal : String} (declares : start.DeclaresLiteral commands literal) :
    Origin start commands literal
  | computed (word : Word) : Origin start commands word.hex

theorem Origin.concat {start : Machine} {commands : List Command} {text : String}
    (h : start.Origin commands text) (command : Command) :
    start.Origin (commands ++ [command]) text := by
  cases h with
  | declared declares => exact .declared (declares.concat command)
  | computed word => exact .computed word

/-- **`origin_of_stored`**: every text in the store was declared, or a word was written. -/
theorem origin_of_stored (settings : Settings) (commands : List Command) {name text : String}
    (h : ((fresh settings).obeyAll commands).store.get? name = some text) :
    (fresh settings).Origin commands text := by
  induction commands using List.reverseRecOn generalizing name text with
  | nil => cases h
  | append_singleton commands command ih =>
    let machine := (fresh settings).obeyAll commands
    have haligned : machine.store.Aligned := (declared_obeyAll settings commands).gapless.aligned
    have hchange := machine.obey_change command
    have hbefore : ∀ name text, machine.store.get? name = some text →
        (fresh settings).Origin (commands ++ [command]) text :=
      fun _ _ hstored => (ih hstored).concat command
    rw [obeyAll_append] at h
    cases hfault : (machine.obey command).fault with
    | some fault =>
      have hsame : (machine.obey command).machine.store = machine.store :=
        (hfault ▸ hchange).store_eq
      exact hbefore name text (hsame ▸ h)
    | none =>
      refine hchange.forall_text haligned .computed ?_ hbefore name text h
      intro declared width literal hinstruction
      exact .declared ⟨commands, command, [], declared, width, rfl, hinstruction, hfault⟩

/-- The text of a word can be read, so a text that cannot was declared. -/
theorem Origin.declares_of_unreadable {start : Machine} {commands : List Command} {text : String}
    (h : start.Origin commands text) {error : Word.ReadError} (hread : Word.read text = .error error) :
    start.DeclaresLiteral commands text := by
  cases h with
  | declared declares => exact declares
  | computed word =>
    rw [Word.read_hex] at hread
    cases hread

/-! ## Runs -/

/-- If bound names are valid and all texts can be read, division by zero is all that can go wrong with
names that are bound. -/
theorem zeroDivisor_of_bound {machine : Machine} (haligned : machine.store.Aligned)
    (hvalid : ∀ name ∈ machine.store.names, Name.isValid name = true)
    (hreads : ∀ name text, machine.store.get? name = some text → ∃ word, Word.read text = .ok word)
    {instruction : Instruction}
    (hbound : ∀ name ∈ instruction.touched, (machine.store.key? name).isSome) {fault : Fault}
    (h : (machine.perform instruction).fault = some fault) :
    ∃ dest src text, instruction = .binary .div dest src ∧ fault = .divisionByZero dest src ∧
      machine.store.get? src = some text ∧ Word.read text = .ok 0 := by
  cases obstacle_of_fault h with
  | @invalidName name written invalid =>
    have hname := hbound name (Instruction.mem_touched_of_mem_written written)
    rw [hvalid name (Store.mem_names_iff.2 hname)] at invalid
    cases invalid
  | @unbound _ name touched absent =>
    have hname := hbound name touched
    rw [← haligned.get?_isSome, absent] at hname
    cases hname
  | @notNumeric name text error touched present unreadable =>
    obtain ⟨word, hword⟩ := hreads name text present
    rw [unreadable] at hword
    cases hword
  | zeroDivisor division present zero => exact ⟨_, _, _, division, rfl, present, zero⟩

/-- **`unreadable_texts_are_literals`**: after any commands, a text that a command reports to be no
number is word for word the literal of an earlier declaration that succeeded, and it cannot be read.
If all literals declared without a fault can be read, then so can all texts in the store, no command
reports a text to be no number, and an instruction on bound names has no fault but a division by a
text that reads as zero. -/
theorem unreadable_texts_are_literals (settings : Settings) (commands : List Command) :
    let start := fresh settings
    let machine := start.obeyAll commands
    (∀ command text, (machine.obey command).fault = some (.notNumeric text) →
      start.DeclaresLiteral commands text ∧ ∃ error, Word.read text = .error error) ∧
    ((∀ literal, start.DeclaresLiteral commands literal → ∃ word, Word.read literal = .ok word) →
      (∀ name text, machine.store.get? name = some text → ∃ word, Word.read text = .ok word) ∧
      (∀ command text, (machine.obey command).fault ≠ some (.notNumeric text)) ∧
      ∀ command instruction fault, command.instruction? = some instruction →
        (∀ name ∈ instruction.touched, (machine.store.key? name).isSome) →
        (machine.obey command).fault = some fault →
        ∃ dest src text, instruction = .binary .div dest src ∧ fault = .divisionByZero dest src ∧
          machine.store.get? src = some text ∧ Word.read text = .ok 0) := by
  intro start machine
  have hdeclared : Declared machine.store (start.declared commands) :=
    declared_obeyAll settings commands
  have hliteral : ∀ command text, (machine.obey command).fault = some (.notNumeric text) →
      start.DeclaresLiteral commands text ∧ ∃ error, Word.read text = .error error := by
    intro command text hfault
    obtain ⟨⟨name, hstored⟩, error, hread⟩ := stored_of_notNumeric hfault
    exact ⟨(origin_of_stored settings commands hstored).declares_of_unreadable hread, error, hread⟩
  refine ⟨hliteral, fun hliterals => ?_⟩
  have hreads : ∀ name text, machine.store.get? name = some text →
      ∃ word, Word.read text = .ok word := by
    intro name text hstored
    cases origin_of_stored settings commands hstored with
    | declared declares => exact hliterals text declares
    | computed word => exact ⟨word.lowHalf, Word.read_hex word⟩
  refine ⟨hreads, ?_, ?_⟩
  · intro command text hfault
    obtain ⟨declares, error, hread⟩ := hliteral command text hfault
    obtain ⟨word, hword⟩ := hliterals text declares
    rw [hread] at hword
    cases hword
  · intro command instruction fault hinstruction hbound hfault
    rw [machine.fault_obey_of_some hinstruction] at hfault
    have hvalid : ∀ name ∈ machine.store.names, Name.isValid name = true := by
      intro name hname
      rw [hdeclared.names, List.mem_eraseDups] at hname
      exact hdeclared.valid name hname
    exact zeroDivisor_of_bound hdeclared.gapless.aligned hvalid hreads hbound hfault

/-- A literal that is no number stops an exchange; without such a literal, a division by a name that
was declared as minus zero has a fault, and no command reports a text. -/
theorem unreadable_texts_are_literals_division :
    let mixed : List Command := [.execute "A DB zz", .emit "B DB 1"]
    let numeric : List Command := [.execute "A DB ff", .emit "Z DW -0"]
    let machine := (fresh {}).obeyAll numeric
    (((fresh {}).obeyAll mixed).obey (.emit "XCHG B A")).fault = some (.notNumeric "zz") ∧
    (fresh {}).DeclaresLiteral mixed "zz" ∧
    (∀ command text, (machine.obey command).fault ≠ some (.notNumeric text)) ∧
    (machine.obey (.execute "DIV A Z")).fault = some (.divisionByZero "A" "Z") ∧
    ∃ text, machine.store.get? "Z" = some text ∧ Word.read text = .ok 0 := by
  intro mixed numeric machine
  have hreport : (((fresh {}).obeyAll mixed).obey (.emit "XCHG B A")).fault =
      some (.notNumeric "zz") := by decide
  have hdivision : (machine.obey (.execute "DIV A Z")).fault = some (.divisionByZero "A" "Z") := by
    decide
  have hliterals : ∀ literal, (fresh {}).DeclaresLiteral numeric literal →
      ∃ word, Word.read literal = .ok word := by
    rintro literal ⟨before, command, later, name, width, hsplit, hinstruction, -⟩
    have hcommand : command ∈ numeric := by simp [hsplit]
    rcases List.mem_pair.1 hcommand with rfl | rfl
    · have hread : (Command.execute "A DB ff").instruction? = some (.declare "A" .byte "ff") := by
        decide
      rw [hread] at hinstruction
      cases hinstruction
      exact ⟨255, by decide⟩
    · have hread : (Command.emit "Z DW -0").instruction? = some (.declare "Z" .word "-0") := by
        decide
      rw [hread] at hinstruction
      cases hinstruction
      exact ⟨0, by decide⟩
  obtain ⟨hliteral, -⟩ := unreadable_texts_are_literals {} mixed
  obtain ⟨-, hnumeric⟩ := unreadable_texts_are_literals {} numeric
  obtain ⟨-, hnever, honly⟩ := hnumeric hliterals
  obtain ⟨dest, src, text, hinstruction, -, htext, hzero⟩ := honly (.execute "DIV A Z")
    (.binary .div "A" "Z") _ (by decide) (by decide) hdivision
  cases hinstruction
  exact ⟨hreport, (hliteral _ "zz" hreport).1, hnever, hdivision, text, htext, hzero⟩

end Machine

end HexMachine
