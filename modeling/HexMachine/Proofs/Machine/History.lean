import HexMachine.Proofs.Machine.Binding
import HexMachine.Proofs.Machine.Streaming
import HexMachine.Proofs.Machine.Unsigned

/-!
# The transcript as history

A machine that records without a limit keeps a dump of every store it has passed through. Main
statement `transcript_is_history`: after any lines executed and instructions performed, the dumps held
are those that were due. A command that faults owes none, any other owes one of the store it leaves,
and a legacy decrement owes one more before it, of the store with one added to the operand.

What orders the dumps is the invariant `Chronicle`. The step is that of a single dump,
`Chronicle.passTo`: a store may follow if it keeps the cells of the one before it in their order.
-/
namespace HexMachine

/-! ## What is due -/

/-- The store with a number added to the word under a name. -/
def Store.bump (store : Store) (name : String) (delta : Word) : Store :=
  match (store.get? name).map Word.read with
  | some (.ok word) => store.set name (.word (word + delta))
  | _ => store

/-- The text under a name stands for a number. -/
def Store.Holds (store : Store) (name : String) (number : UInt32) : Prop :=
  ∃ text, store.get? name = some text ∧ Unsigned.Reads text number

theorem Store.holds_set_word (store : Store) (name : String) (word : Word) :
    (store.set name (.word word)).Holds name word.residue :=
  ⟨word.hex, store.get?_set_self name (.word word), Unsigned.reads_hex word⟩

/-- The keys that a dump lists. -/
def Dump.keys (dump : Dump) : List Key := dump.entries.map Prod.fst

/-- Whether the dumps of a command stay in the transcript. -/
def Command.isKept : Command → Bool
  | .execute _ => true
  | .emit _ => false
  | .perform _ => true

namespace Machine

/-- The store that a legacy decrement passes through before the one it leaves. -/
def halfway? (machine : Machine) (instruction : Instruction) : Option Store :=
  match machine.settings.decrement, instruction with
  | .legacy, .decrement dest => some (machine.store.bump dest 1)
  | _, _ => none

/-- The dumps that a command owes. -/
def due (machine : Machine) (command : Command) : List Dump :=
  let after := (machine.obey command).machine
  match (machine.obey command).fault with
  | some _ => []
  | none =>
    ((command.instruction?.bind machine.halfway?).toList ++ [after.store]).map
      (⟨after.line, ·.entries⟩)

/-- The dumps that commands owe, in order. -/
def history (machine : Machine) : List Command → List Dump
  | [] => []
  | command :: rest => machine.due command ++ history (machine.obey command).machine rest

theorem history_append (machine : Machine) (first second : List Command) :
    machine.history (first ++ second) =
      machine.history first ++ (machine.obeyAll first).history second := by
  induction first generalizing machine with
  | nil => rfl
  | cons command rest ih =>
    rw [List.cons_append, history, history, ih, List.append_assoc, obeyAll_cons]

theorem due_ne_nil {machine : Machine} {command : Command}
    (h : (machine.obey command).fault = none) : machine.due command ≠ [] := by
  simp [due, h]

/-! ## The dumps of an instruction -/

theorem bump_of_wordAt {machine : Machine} {dest : String} {word : Word}
    (h : machine.wordAt dest = .ok word) (delta : Word) :
    machine.store.bump dest delta = machine.store.set dest (.word (word + delta)) := by
  obtain ⟨text, htext, hread⟩ := read_of_wordAt h
  simp only [Store.bump, htext, Option.map_some, hread]

/-- An instruction passes through the store that it leaves and, if it is a legacy decrement, through
another one before. -/
theorem stages_eq_halfway {machine : Machine} {instruction : Instruction} {stores : List Store}
    (h : machine.stages instruction = .ok stores) :
    stores = (machine.halfway? instruction).toList ++ [stores.getLast?.getD machine.store] := by
  cases instruction with
  | decrement dest =>
    obtain ⟨word, hword, rfl⟩ := ok_of_map h
    unfold halfway?
    cases machine.settings.decrement with
    | legacy => simp [bump_of_wordAt hword]
    | subtract => simp
  | _ =>
    obtain ⟨_, -, rfl⟩ := ok_of_map h
    simp [halfway?]

theorem dumps_effect (machine : Machine) (instruction : Instruction) :
    (machine.effect instruction).dumps = machine.due (.perform instruction) := by
  rw [due, obey, perform_eq_absorb, effect]
  cases hstages : machine.stages instruction with
  | error fault => rfl
  | ok stores =>
    have hstores := stages_eq_halfway hstages
    show stores.map _ = _
    rw [hstores]
    simp [Command.instruction?, absorb]

theorem due_execute_of_ok {machine : Machine} {line : String} {instruction : Instruction}
    (h : Instruction.ofLine line = .ok instruction) :
    machine.due (.execute line) = machine.nextLine.due (.perform instruction) := by
  simp only [due, obey, execute, Command.instruction?, h]
  rfl

theorem due_execute_of_error {machine : Machine} {line : String} {fault : Fault}
    (h : Instruction.ofLine line = .error fault) : machine.due (.execute line) = [] := by
  simp only [due, obey, execute, h]

/-! ## Recording without a limit -/

/-- The machine records, and lets no dump go. -/
structure KeepsAll (machine : Machine) : Prop where
  recording : machine.settings.recordDumps = true
  unlimited : machine.transcript.limit = none

namespace KeepsAll

variable {machine : Machine}

theorem transcript_absorb (h : machine.KeepsAll) (effect : Effect) :
    (machine.absorb effect).transcript =
      { machine.transcript with held := machine.transcript.held ++ effect.dumps } := by
  simp only [absorb, recorded, h.recording, if_true]
  exact Transcript.recordAll_of_hasRoom (hasRoom_of_unlimited h.unlimited _)

theorem passTo (h : machine.KeepsAll) (store : Store) :
    machine.passTo store =
      { machine with
        store := store
        transcript :=
          { machine.transcript with
            held := machine.transcript.held ++ [⟨machine.line, store.entries⟩] } } := by
  rw [passTo_eq, ← h.transcript_absorb ⟨store, [⟨machine.line, store.entries⟩], none⟩]
  rfl

theorem held_perform (h : machine.KeepsAll) (instruction : Instruction) :
    (machine.perform instruction).machine.transcript.held =
      machine.transcript.held ++ machine.due (.perform instruction) := by
  rw [← dumps_effect, perform_eq_absorb, h.transcript_absorb]

/-- What a command adds to the dumps held is what it owes. -/
theorem held_obey (h : machine.KeepsAll) {command : Command} (hkept : command.isKept = true) :
    (machine.obey command).machine.transcript.held =
      machine.transcript.held ++ machine.due command := by
  cases command with
  | emit line => cases hkept
  | perform instruction => exact h.held_perform instruction
  | execute line =>
    have hcounted : machine.nextLine.KeepsAll := ⟨h.recording, h.unlimited⟩
    cases hline : Instruction.ofLine line with
    | error fault =>
      rw [due_execute_of_error hline, List.append_nil]
      simp only [obey, execute, hline]
      rfl
    | ok instruction =>
      rw [due_execute_of_ok hline]
      simp only [obey, execute, hline]
      exact hcounted.held_perform instruction

end KeepsAll

/-! ## The order of dumps -/

/-- The dumps held are in order: their lines do not decrease, the keys of each come first in the
next, and the last one shows the store as it is. -/
structure Chronicle (machine : Machine) : Prop where
  keeps : machine.KeepsAll
  dropped : machine.transcript.dropped = 0
  past : ∀ dump ∈ machine.transcript.held, dump.line ≤ machine.line
  lines : machine.transcript.held.Pairwise (·.line ≤ ·.line)
  grown : ∀ dump ∈ machine.transcript.held, dump.keys <+: machine.store.cells.keys
  keys : machine.transcript.held.Pairwise fun first second => first.keys <+: second.keys
  last : ∀ dump, machine.transcript.last? = some dump → dump.entries = machine.store.entries

theorem chronicle_fresh (rule : DecrementRule) : (fresh { decrement := rule }).Chronicle where
  keeps := ⟨rfl, rfl⟩
  dropped := rfl
  past := by simp [fresh, Transcript.empty]
  lines := .nil
  grown := by simp [fresh, Transcript.empty]
  keys := .nil
  last := by simp [fresh, Transcript.empty, Transcript.last?]

namespace Chronicle

variable {machine : Machine}

theorem nextLine (h : machine.Chronicle) : machine.nextLine.Chronicle where
  keeps := ⟨h.keeps.recording, h.keeps.unlimited⟩
  dropped := h.dropped
  past := fun dump hdump => Nat.le_succ_of_le (h.past dump hdump)
  lines := h.lines
  grown := h.grown
  keys := h.keys
  last := h.last

/-- One more dump, of a store that has the cells of the one before it in the same order. -/
theorem passTo (h : machine.Chronicle) {store : Store}
    (hkeys : machine.store.cells.keys <+: store.cells.keys) : (machine.passTo store).Chronicle := by
  have hgrown : ∀ dump ∈ machine.transcript.held, dump.keys <+: store.cells.keys :=
    fun dump hdump => (h.grown dump hdump).trans hkeys
  rw [h.keeps.passTo]
  refine ⟨⟨h.keeps.recording, h.keeps.unlimited⟩, h.dropped, ?_, ?_, ?_, ?_, ?_⟩
  · intro dump hdump
    rcases List.mem_append.1 hdump with hold | hnew
    · exact h.past dump hold
    · rw [List.mem_singleton.1 hnew]
  · refine List.pairwise_append.2 ⟨h.lines, List.pairwise_singleton _ _, fun dump hdump new hnew => ?_⟩
    rw [List.mem_singleton.1 hnew]
    exact h.past dump hdump
  · intro dump hdump
    rcases List.mem_append.1 hdump with hold | hnew
    · exact hgrown dump hold
    · rw [List.mem_singleton.1 hnew]
      exact List.prefix_refl _
  · refine List.pairwise_append.2 ⟨h.keys, List.pairwise_singleton _ _, fun dump hdump new hnew => ?_⟩
    rw [List.mem_singleton.1 hnew]
    exact hgrown dump hdump
  · intro dump hdump
    simp only [Transcript.last?, List.getLast?_concat, Option.some.injEq] at hdump
    rw [← hdump]

end Chronicle

/-- The stages of an instruction have the cells of the store before it, in the same order; only a
declaration may add one. -/
theorem cellKeys_stages {machine : Machine} (haligned : machine.store.Aligned)
    {instruction : Instruction} {stores : List Store}
    (h : machine.stages instruction = .ok stores) :
    (machine.store :: stores).Pairwise fun first second =>
      first.cells.keys <+: second.cells.keys := by
  cases hop : instruction.declares? with
  | none =>
    have hsame : ∀ store ∈ machine.store :: stores, store.cells.keys = machine.store.cells.keys := by
      refine List.forall_mem_cons.2 ⟨rfl, fun store hstore => ?_⟩
      obtain ⟨writes, hwrites, rfl⟩ := stages_internal h hop store hstore
      exact haligned.cellKeys_setAll fun write hwrite => (hwrites write hwrite).1
    refine List.pairwise_of_forall_mem_list fun first hfirst second hsecond => ?_
    exact ⟨[], by rw [List.append_nil, hsame first hfirst, hsame second hsecond]⟩
  | some name =>
    cases instruction with
    | declare name width literal =>
      obtain ⟨_, -, rfl⟩ := ok_of_map h
      simpa using haligned.cellKeys_set name (.text literal)
    | _ => cases hop

section

variable {P : Machine → Prop} {machine : Machine}
  (hpass : ∀ machine store, P machine → machine.store.cells.keys <+: store.cells.keys →
    P (machine.passTo store))
include hpass

/-- What is kept in passing to a store with the same cells in front is kept in passing through
several. -/
theorem passThrough_keeps {stores : List Store} (h : P machine)
    (hkeys : (machine.store :: stores).Pairwise fun first second =>
      first.cells.keys <+: second.cells.keys) : P (machine.passThrough stores) := by
  induction stores generalizing machine with
  | nil => exact h
  | cons store rest ih =>
    obtain ⟨hfirst, hrest⟩ := List.pairwise_cons.1 hkeys
    refine ih (hpass machine store h (hfirst store (by simp))) ?_
    rw [passTo_store]
    exact hrest

theorem perform_keeps (h : P machine) (haligned : machine.store.Aligned)
    (instruction : Instruction) : P (machine.perform instruction).machine := by
  rw [perform_eq]
  cases hstages : machine.stages instruction with
  | error fault => exact h
  | ok stores => exact passThrough_keeps hpass h (cellKeys_stages haligned hstages)

end

namespace Chronicle

variable {machine : Machine}

theorem perform (h : machine.Chronicle) (haligned : machine.store.Aligned)
    (instruction : Instruction) : (machine.perform instruction).machine.Chronicle :=
  perform_keeps (fun _ _ hbefore hkeys => hbefore.passTo hkeys) h haligned instruction

theorem obey (h : machine.Chronicle) (haligned : machine.store.Aligned) {command : Command}
    (hkept : command.isKept = true) : (machine.obey command).machine.Chronicle := by
  cases command with
  | emit line => cases hkept
  | perform instruction => exact h.perform haligned instruction
  | execute line =>
    simp only [Machine.obey, execute]
    cases Instruction.ofLine line with
    | error fault => exact h.nextLine
    | ok instruction => exact h.nextLine.perform haligned instruction

end Chronicle

/-! ## Runs -/

theorem chronicle_obeyAll (rule : DecrementRule) {commands : List Command}
    (hkept : ∀ command ∈ commands, command.isKept = true) :
    ((fresh { decrement := rule }).obeyAll commands).Chronicle ∧
      ((fresh { decrement := rule }).obeyAll commands).transcript.held =
        (fresh { decrement := rule }).history commands := by
  induction commands using List.reverseRecOn with
  | nil => exact ⟨chronicle_fresh rule, rfl⟩
  | append_singleton commands command ih =>
    obtain ⟨hchronicle, hheld⟩ := ih fun earlier hearlier => hkept earlier (by simp [hearlier])
    have hcommand : command.isKept = true := hkept command (by simp)
    have haligned := (declared_obeyAll { decrement := rule } commands).gapless.aligned
    rw [obeyAll_append, history_append, ← hheld]
    refine ⟨hchronicle.obey haligned hcommand, ?_⟩
    rw [history, history, List.append_nil]
    exact hchronicle.keeps.held_obey hcommand

/-- A command that carries an instruction has it performed, after its line is counted. -/
theorem obey_eq_perform (machine : Machine) {command : Command} {instruction : Instruction}
    (hkept : command.isKept = true) (h : command.instruction? = some instruction) :
    ∃ counted : Machine, counted.store = machine.store ∧ counted.settings = machine.settings ∧
      machine.obey command = counted.perform instruction := by
  cases command with
  | emit line => cases hkept
  | perform given =>
    cases h
    exact ⟨machine, rfl, rfl, rfl⟩
  | execute line =>
    refine ⟨machine.nextLine, rfl, rfl, ?_⟩
    simp only [Command.instruction?] at h
    cases hline : Instruction.ofLine line with
    | error fault =>
      rw [hline] at h
      cases h
    | ok found =>
      rw [hline] at h
      cases h
      simp only [obey, execute, hline]

/-- What a legacy decrement passes through and leaves: the word of its operand with one and with two
added, modulo 2^32. -/
theorem decrement_legacy {machine : Machine} {dest : String}
    (hrule : machine.settings.decrement = .legacy)
    (h : (machine.perform (.decrement dest)).fault = none) :
    ∃ text word, machine.store.get? dest = some text ∧ Word.read text = .ok word ∧
      (machine.store.bump dest 1).Holds dest (word.residue + 1) ∧
      (machine.perform (.decrement dest)).machine.store = machine.store.bump dest 2 ∧
      (machine.store.bump dest 2).Holds dest (word.residue + 2) := by
  rw [perform_eq_absorb, effect, stages] at h ⊢
  cases hword : machine.wordAt dest with
  | error fault =>
    rw [hword] at h
    cases h
  | ok word =>
    obtain ⟨text, htext, hread⟩ := read_of_wordAt hword
    refine ⟨text, word, htext, hread, ?_, ?_, ?_⟩
    · rw [bump_of_wordAt hword, ← Word.residue_one, ← Word.residue_add]
      exact machine.store.holds_set_word dest (word + 1)
    · rw [bump_of_wordAt hword, hrule]
      simp only [Except.map, absorb, List.getLast?_cons_cons, List.getLast?_singleton,
        Option.getD_some, Int64.add_assoc]
      rfl
    · have htwo : (2 : Word).residue = 2 := rfl
      rw [bump_of_wordAt hword, ← htwo, ← Word.residue_add]
      exact machine.store.holds_set_word dest (word + 2)

/-- **`transcript_is_history`**: a fresh machine that records without a limit executes lines and
performs instructions. The dumps it holds are those that were due, in order, and none is let go. A
legacy decrement owes two, with one and with two added to the value of its operand modulo 2^32. The
line numbers of the dumps never decrease, and the keys of a dump come first in the next one. Once a
command has succeeded, the last dump shows the store as it is. -/
theorem transcript_is_history (rule : DecrementRule) (commands : List Command)
    (hkept : ∀ command ∈ commands, command.isKept = true) :
    let start := fresh { decrement := rule }
    let machine := start.obeyAll commands
    (machine.transcript.held = start.history commands ∧ machine.transcript.dropped = 0) ∧
    (∀ before command later dest, commands = before ++ command :: later →
      ((start.obeyAll before).obey command).fault = none →
      rule = .legacy → command.instruction? = some (.decrement dest) →
      ∃ text word, (start.obeyAll before).store.get? dest = some text ∧ Word.read text = .ok word ∧
        ((start.obeyAll before).store.bump dest 1).Holds dest (word.residue + 1) ∧
        ((start.obeyAll before).obey command).machine.store =
          (start.obeyAll before).store.bump dest 2 ∧
        ((start.obeyAll before).store.bump dest 2).Holds dest (word.residue + 2)) ∧
    machine.transcript.held.Pairwise (·.line ≤ ·.line) ∧
    machine.transcript.held.Pairwise (fun first second => first.keys <+: second.keys) ∧
    (∀ before command later, commands = before ++ command :: later →
      ((start.obeyAll before).obey command).fault = none →
      ∃ dump, machine.transcript.last? = some dump ∧
        String.join (dump.lines.map (· ++ "\n")) = machine.store.listing) := by
  intro start machine
  obtain ⟨hchronicle, hheld⟩ := chronicle_obeyAll rule hkept
  refine ⟨⟨hheld, hchronicle.dropped⟩, ?_, hchronicle.lines, hchronicle.keys, ?_⟩
  · intro before command later dest hcommands hfault hrule hinstruction
    have hmem : command ∈ commands := by simp [hcommands]
    obtain ⟨counted, hstore, hsettings, hobey⟩ :=
      obey_eq_perform (start.obeyAll before) (hkept command hmem) hinstruction
    have hlegacy : counted.settings.decrement = .legacy := by
      rw [hsettings, obeyAll_settings]
      exact hrule
    rw [hobey] at hfault ⊢
    rw [← hstore]
    exact decrement_legacy hlegacy hfault
  · intro before command later hcommands hfault
    -- the command owes a dump, so there is a last one
    have hne : machine.transcript.held ≠ [] := by
      have hdue := due_ne_nil hfault
      rw [show machine.transcript.held = start.history commands from hheld, hcommands,
        history_append, history]
      simp [hdue]
    obtain ⟨dump, hdump⟩ := Option.isSome_iff_exists.1 (List.getLast?_isSome.2 hne)
    refine ⟨dump, hdump, ?_⟩
    rw [Dump.lines, hchronicle.last dump hdump, List.map_map]
    rfl

/-- A decrement of all ones between two declarations, and a line that faults after them. -/
theorem transcript_is_history_decrement :
    let commands : List Command :=
      [.execute "A DB ffffffff", .perform (.decrement "A"), .execute "B DB -1", .execute "INC C"]
    let machine := (fresh {}).obeyAll commands
    machine.transcript.held.map (fun dump => (dump.line, dump.entries)) =
      [(1, [(⟨1⟩, "ffffffff")]), (1, [(⟨1⟩, "0")]), (1, [(⟨1⟩, "1")]),
        (2, [(⟨1⟩, "1"), (⟨2⟩, "-1")])] ∧
    ((fresh {}).execute "A DB ffffffff").machine.store.bump "A" 2 =
      (((fresh {}).execute "A DB ffffffff").machine.perform (.decrement "A")).machine.store ∧
    ∃ dump, machine.transcript.last? = some dump ∧
      String.join (dump.lines.map (· ++ "\n")) = machine.store.listing := by
  intro commands machine
  obtain ⟨⟨hheld, -⟩, hlegacy, -, -, hlast⟩ := transcript_is_history .legacy commands (by decide)
  refine ⟨?_, ?_, ?_⟩
  · rw [show machine.transcript.held = _ from hheld]
    decide
  · obtain ⟨text, word, -, -, -, hstore, -⟩ := hlegacy [.execute "A DB ffffffff"]
      (.perform (.decrement "A")) _ "A" rfl (by decide) rfl rfl
    exact hstore.symm
  · exact hlast [] (.execute "A DB ffffffff") _ rfl (by decide)

end Machine

end HexMachine
