import HexMachine.Machine.Stream
import HexMachine.Proofs.Machine.Stages
import HexMachine.Proofs.Store.Gapless

/-!
# How a store can change

Whatever the machine is told, by a line or by an instruction, one of three things happens to its
store: nothing, because of a fault; a declaration writes its literal; or there are internal writes,
which find all they need in the store. This is `Change`, and `obey_change` says that nothing else
can happen. What holds of every run is shown from it, without opening the instructions again.
-/
namespace HexMachine

/-- The name an instruction declares, if it is a declaration. -/
def Instruction.declares? : Instruction → Option String
  | .declare name _ _ => some name
  | _ => none

/-- What can become of a store under an instruction, or under a line that holds none: the fault, if
there is one, and the store afterwards. -/
inductive Change (before : Store) : Option Instruction → Option Fault → Store → Prop where
  | fault {instruction : Option Instruction} {fault : Fault} :
    Change before instruction (some fault) before
  | declare {name : String} {width : Width} {literal : String} (valid : Name.isValid name = true) :
    Change before (some (.declare name width literal)) none (before.set name (.text literal))
  | rewrite {instruction : Instruction} {writes : List (String × Content)}
      (operation : instruction.declares? = none) (internal : before.Internal writes) :
    Change before (some instruction) none (before.setAll writes)

/-! ## Internal writes -/

namespace Store

theorem internal_nil (store : Store) : store.Internal [] := by simp [Internal]

theorem exists_internal_word {store : Store} {name : String} (h : name ∈ store.names) (word : Word) :
    ∃ writes, store.Internal writes ∧ store.set name (.word word) = store.setAll writes := by
  refine ⟨[(name, .word word)], ?_, rfl⟩
  refine List.forall_mem_singleton.2 ⟨h, fun text htext => ?_⟩
  cases htext

theorem Internal.text {store : Store} {writes : List (String × Content)} (h : store.Internal writes)
    {name other text : String} (hname : name ∈ store.names) (htext : store.get? other = some text) :
    store.Internal ((name, .text text) :: writes) := by
  refine List.forall_mem_cons.2 ⟨⟨hname, fun held hheld => ⟨other, ?_⟩⟩, h⟩
  cases hheld
  exact htext

end Store

theorem Change.store_eq {before after : Store} {instruction : Option Instruction} {fault : Fault}
    (hchange : Change before instruction (some fault) after) : after = before := by
  cases hchange
  rfl

/-- What holds of the texts in a store, of stored words and of the literal holds of the texts after
a change, since no text comes from anywhere else. -/
theorem Change.forall_text {P : String → Prop} {before after : Store}
    {instruction : Option Instruction} {fault : Option Fault}
    (hchange : Change before instruction fault after) (haligned : before.Aligned)
    (hword : ∀ word : Word, P word.hex)
    (hliteral : ∀ name width literal, instruction = some (.declare name width literal) → P literal)
    (h : ∀ name text, before.get? name = some text → P text) :
    ∀ name text, after.get? name = some text → P text := by
  intro name text htext
  cases hchange with
  | fault => exact h name text htext
  | @declare declared width literal valid =>
    rw [haligned.get?_set] at htext
    split at htext
    · cases htext
      exact hliteral declared width literal rfl
    · exact h name text htext
  | @rewrite _ writes operation internal =>
    rcases haligned.get?_setAll htext with hold | ⟨⟨target, content⟩, hmem, rfl⟩
    · exact h name text hold
    · cases content with
      | word word => exact hword word
      | text held =>
        obtain ⟨source, hsource⟩ := (internal _ hmem).2 held rfl
        exact h source held hsource

namespace Machine

/-! ## What the checks find out -/

theorem ok_of_bind {α β : Type} {check : Except Fault α} {next : α → Except Fault β} {b : β}
    (h : check >>= next = .ok b) : ∃ a, check = .ok a ∧ next a = .ok b := by
  cases check with
  | error fault => cases h
  | ok a => exact ⟨a, rfl, h⟩

theorem read_of_numeric {text : String} {word : Word} (h : numeric text = .ok word) :
    Word.read text = .ok word := by
  unfold numeric at h
  split at h
  · rename_i hread
    rw [hread, Except.ok.inj h]
  · cases h

section

variable {machine : Machine} {dest src : String}

theorem get?_of_fetch {operand : Operand} {name text : String}
    (h : machine.fetch operand name = .ok text) : machine.store.get? name = some text := by
  unfold fetch at h
  split at h
  · rename_i found hfound
    rw [hfound]
    exact congrArg some (Except.ok.inj h)
  · cases h

theorem get?_of_fetchPair {texts : String × String} (h : machine.fetchPair dest src = .ok texts) :
    machine.store.get? dest = some texts.1 ∧ machine.store.get? src = some texts.2 := by
  obtain ⟨destText, hdest, h⟩ := ok_of_bind h
  obtain ⟨srcText, hsrc, h⟩ := ok_of_bind h
  cases h
  exact ⟨get?_of_fetch hdest, get?_of_fetch hsrc⟩

theorem get?_of_numericPair {texts : String × String}
    (h : machine.numericPair dest src = .ok texts) :
    machine.store.get? dest = some texts.1 ∧ machine.store.get? src = some texts.2 := by
  obtain ⟨found, hfound, h⟩ := ok_of_bind h
  obtain ⟨_, -, h⟩ := ok_of_bind h
  obtain ⟨_, -, h⟩ := ok_of_bind h
  cases h
  exact get?_of_fetchPair hfound

theorem mem_names_of_binaryResult {op : BinaryOp} {word : Word}
    (h : machine.binaryResult op dest src = .ok word) : dest ∈ machine.store.names := by
  obtain ⟨texts, htexts, -⟩ := ok_of_bind h
  exact Store.mem_names_of_get? (get?_of_fetchPair htexts).1

/-- The word of an operand was read from the text under its name. -/
theorem read_of_wordAt {word : Word} (h : machine.wordAt dest = .ok word) :
    ∃ text, machine.store.get? dest = some text ∧ Word.read text = .ok word := by
  obtain ⟨text, htext, hword⟩ := ok_of_bind h
  exact ⟨text, get?_of_fetch htext, read_of_numeric hword⟩

theorem mem_names_of_wordAt {word : Word} (h : machine.wordAt dest = .ok word) :
    dest ∈ machine.store.names := by
  obtain ⟨text, htext, -⟩ := read_of_wordAt h
  exact Store.mem_names_of_get? htext

end

/-! ## What an instruction does -/

/-- Every stage of an instruction other than a declaration comes of internal writes. -/
theorem stages_internal {machine : Machine} {instruction : Instruction} {stores : List Store}
    (h : machine.stages instruction = .ok stores) (hop : instruction.declares? = none) :
    ∀ store ∈ stores, ∃ writes, machine.store.Internal writes ∧
      store = machine.store.setAll writes := by
  have hnil := machine.store.internal_nil
  cases instruction with
  | declare name width literal => cases hop
  | binary op dest src =>
    obtain ⟨word, hword, rfl⟩ := ok_of_map h
    have hdest := mem_names_of_binaryResult hword
    exact List.forall_mem_singleton.2 (Store.exists_internal_word hdest word)
  | move dest src =>
    obtain ⟨texts, htexts, rfl⟩ := ok_of_map h
    obtain ⟨_, -, hpair⟩ := ok_of_bind htexts
    obtain ⟨hdest, hsrc⟩ := get?_of_numericPair hpair
    have hwrite := hnil.text (Store.mem_names_of_get? hdest) hsrc
    exact List.forall_mem_singleton.2 ⟨[(dest, .text texts.2)], hwrite, rfl⟩
  | exchange dest src =>
    obtain ⟨texts, hpair, rfl⟩ := ok_of_map h
    obtain ⟨hdest, hsrc⟩ := get?_of_numericPair hpair
    have hsecond := hnil.text (Store.mem_names_of_get? hsrc) hdest
    have hboth := hsecond.text (Store.mem_names_of_get? hdest) hsrc
    exact List.forall_mem_singleton.2 ⟨[(dest, .text texts.2), (src, .text texts.1)], hboth, rfl⟩
  | increment dest =>
    obtain ⟨word, hword, rfl⟩ := ok_of_map h
    have hdest := mem_names_of_wordAt hword
    exact List.forall_mem_singleton.2 (Store.exists_internal_word hdest (word + 1))
  | decrement dest =>
    obtain ⟨word, hword, rfl⟩ := ok_of_map h
    have hdest := mem_names_of_wordAt hword
    have hwrite := fun result => Store.exists_internal_word hdest result
    cases machine.settings.decrement with
    | legacy => exact List.forall_mem_cons.2 ⟨hwrite _, List.forall_mem_singleton.2 (hwrite _)⟩
    | subtract => exact List.forall_mem_singleton.2 (hwrite _)

theorem effect_change (machine : Machine) (instruction : Instruction) :
    Change machine.store (some instruction) (machine.effect instruction).fault
      (machine.effect instruction).store := by
  unfold effect
  cases hstages : machine.stages instruction with
  | error fault => exact .fault
  | ok stores =>
    cases hop : instruction.declares? with
    | none =>
      -- the last stage is what is left, and without stages nothing is written
      show Change _ _ none (stores.getLast?.getD machine.store)
      cases hlast : stores.getLast? with
      | none => exact .rewrite hop machine.store.internal_nil
      | some last =>
        have hmem := List.mem_of_getLast? hlast
        obtain ⟨writes, hwrites, rfl⟩ := stages_internal hstages hop last hmem
        exact .rewrite hop hwrites
    | some name =>
      cases instruction with
      | declare name width literal =>
        obtain ⟨_, hvalid, rfl⟩ := ok_of_map hstages
        refine .declare ?_
        unfold validName at hvalid
        split at hvalid
        · assumption
        · cases hvalid
      | _ => cases hop

theorem perform_change (machine : Machine) (instruction : Instruction) :
    Change machine.store (some instruction) (machine.perform instruction).fault
      (machine.perform instruction).machine.store := by
  rw [perform_eq_absorb]
  exact machine.effect_change instruction

theorem execute_change (machine : Machine) (line : String) :
    Change machine.store (Instruction.ofLine line).toOption (machine.execute line).fault
      (machine.execute line).machine.store := by
  unfold execute
  cases Instruction.ofLine line with
  | ok instruction => exact machine.nextLine.perform_change instruction
  | error fault => exact .fault

@[simp] theorem emit_store (machine : Machine) (line : String) :
    (machine.emit line).machine.store = (machine.execute line).machine.store := by
  simp only [emit]

@[simp] theorem emit_fault (machine : Machine) (line : String) :
    (machine.emit line).fault = (machine.execute line).fault := by
  simp only [emit]

end Machine

/-! ## Commands -/

/-- What a machine can be told: to execute a line and keep its dumps, to execute a line and hand its
dumps out, or to perform an instruction. -/
inductive Command where
  | execute (line : String)
  | emit (line : String)
  | perform (instruction : Instruction)
deriving DecidableEq, Repr

/-- The instruction in a command, if there is one. -/
def Command.instruction? : Command → Option Instruction
  | .execute line => (Instruction.ofLine line).toOption
  | .emit line => (Instruction.ofLine line).toOption
  | .perform instruction => some instruction

namespace Machine

/-- What a command leaves behind. -/
def obey (machine : Machine) : Command → Outcome
  | .execute line => machine.execute line
  | .emit line => ⟨(machine.emit line).machine, (machine.emit line).fault⟩
  | .perform instruction => machine.perform instruction

/-- The machine after commands in order, each of which may have a fault. -/
def obeyAll (machine : Machine) (commands : List Command) : Machine :=
  commands.foldl (fun before command => (before.obey command).machine) machine

theorem obeyAll_cons (machine : Machine) (command : Command) (rest : List Command) :
    machine.obeyAll (command :: rest) = (machine.obey command).machine.obeyAll rest := rfl

theorem obeyAll_append (machine : Machine) (first second : List Command) :
    machine.obeyAll (first ++ second) = (machine.obeyAll first).obeyAll second := by
  rw [obeyAll, List.foldl_append]
  rfl

@[simp] theorem obey_settings (machine : Machine) (command : Command) :
    (machine.obey command).machine.settings = machine.settings := by
  cases command with
  | execute line => exact machine.execute_settings line
  | emit line =>
    simp only [obey, emit]
    exact machine.execute_settings line
  | perform instruction => exact machine.perform_settings instruction

@[simp] theorem obeyAll_settings (machine : Machine) (commands : List Command) :
    (machine.obeyAll commands).settings = machine.settings := by
  induction commands generalizing machine with
  | nil => rfl
  | cons command rest ih => rw [obeyAll_cons, ih, obey_settings]

/-- **`obey_change`**: a command changes the store in one of the ways of `Change`. -/
theorem obey_change (machine : Machine) (command : Command) :
    Change machine.store command.instruction? (machine.obey command).fault
      (machine.obey command).machine.store := by
  cases command with
  | execute line => exact machine.execute_change line
  | emit line =>
    simp only [obey, emit_store, emit_fault]
    exact machine.execute_change line
  | perform instruction => exact machine.perform_change instruction

/-- A run leaves the machine that executing its lines leaves. -/
theorem foldl_runLine (lines : List String) (state : Summary × Machine) :
    (lines.foldl runLine state).2 = state.2.obeyAll (lines.map .execute) := by
  induction lines generalizing state with
  | nil => rfl
  | cons line rest ih =>
    rw [List.foldl_cons, ih, List.map_cons, obeyAll_cons]
    rfl

end Machine

end HexMachine
