import HexMachine.Proofs.Machine.Change
import Mathlib.Data.List.Forall2

/-!
# Names do not matter

A machine compares names and asks whether they are valid, and makes no other use of them. Main
statement `renaming_changes_names_only`: rename the variables of a program by an injective map that
keeps valid names valid and others not. Then the run is the same, step by step, with the new names in
the place of the old ones: in the faults that quote names, and in the table that binds names to keys.
Dumps have no names in them, and are the same.

A renamed machine is the machine with the names in its store renamed. So the step is an equation,
`perform_rename`: to rename and to perform is to perform and to rename.
-/
namespace HexMachine

/-- A renaming of variables. It keeps different names different, and it takes valid names to valid
names and no others. -/
structure Renaming where
  map : String → String
  injective : Function.Injective map
  isValid_map : ∀ name, Name.isValid (map name) = Name.isValid name

/-- The renaming that interchanges two names, both valid or both not. -/
def Renaming.swap (a b : String) (h : Name.isValid a = Name.isValid b) : Renaming where
  map name := if name = a then b else if name = b then a else name
  injective := by
    intro x y hxy
    grind
  isValid_map := by
    intro name
    grind

/-- The instruction with its names renamed. A literal is not a name. -/
def Instruction.rename (r : Renaming) : Instruction → Instruction
  | .declare name width literal => .declare (r.map name) width literal
  | .binary op dest src => .binary op (r.map dest) (r.map src)
  | .move dest src => .move (r.map dest) (r.map src)
  | .exchange dest src => .exchange (r.map dest) (r.map src)
  | .increment dest => .increment (r.map dest)
  | .decrement dest => .decrement (r.map dest)

/-- The fault with the names that it quotes renamed. Lines, keywords and stored texts that a fault
quotes are no names. -/
def Fault.rename (r : Renaming) : Fault → Fault
  | .emptyLine => .emptyLine
  | .unrecognizedLine line => .unrecognizedLine line
  | .missingArguments keyword expected got => .missingArguments keyword expected got
  | .invalidName name => .invalidName (r.map name)
  | .unknownRegister operand name => .unknownRegister operand (r.map name)
  | .notNumeric text => .notNumeric text
  | .divisionByZero dest src => .divisionByZero (r.map dest) (r.map src)
  | .unsupportedOperation token => .unsupportedOperation token

/-! ## Stores -/

namespace Table

variable {β : Type} (r : Renaming)

/-- The table with its keys renamed, in the same order. -/
def rename (table : Table String β) : Table String β := table.map (Prod.map r.map id)

@[simp] theorem rename_cons (name : String) (value : β) (rest : Table String β) :
    rename r ((name, value) :: rest) = (r.map name, value) :: rename r rest := rfl

theorem find?_rename (name : String) (table : Table String β) :
    find? (r.map name) (rename r table) = find? name table := by
  induction table with
  | nil => rfl
  | cons entry rest ih =>
    obtain ⟨key, value⟩ := entry
    by_cases hkey : key = name
    · simp [find?, hkey]
    · simp [find?, hkey, r.injective.eq_iff, ih]

theorem put_rename (name : String) (value : β) (table : Table String β) :
    put (r.map name) value (rename r table) = rename r (put name value table) := by
  induction table with
  | nil => rfl
  | cons entry rest ih =>
    obtain ⟨key, old⟩ := entry
    by_cases hkey : key = name
    · simp [put, hkey]
    · simp [put, hkey, r.injective.eq_iff, ih]

end Table

namespace Store

variable (r : Renaming)

/-- The store with its names renamed. The cells are under keys, and stay. -/
def rename (store : Store) : Store := { store with keys := Table.rename r store.keys }

@[simp] theorem key?_rename (store : Store) (name : String) :
    (store.rename r).key? (r.map name) = store.key? name :=
  Table.find?_rename r name store.keys

@[simp] theorem get?_rename (store : Store) (name : String) :
    (store.rename r).get? (r.map name) = store.get? name := by
  rw [get?, key?_rename]
  rfl

@[simp] theorem set_rename (store : Store) (name : String) (content : Content) :
    (store.rename r).set (r.map name) content = (store.set name content).rename r := by
  rw [set, key?_rename]
  unfold set
  cases store.key? name with
  | some key => rfl
  | none =>
    -- both bind the same next key, so only the table of names is left to compare
    have hput := Table.put_rename r name (⟨store.nextKey⟩ : Key) store.keys
    simp only [bindNext, writeCell, rename, hput]

theorem names_rename (store : Store) : (store.rename r).names = store.names.map r.map := by
  simp [names, rename, Table.rename, Table.keys, Function.comp_def]

end Store

namespace Machine

variable (r : Renaming)

/-- The machine with the names in its store renamed. -/
def rename (machine : Machine) : Machine := { machine with store := machine.store.rename r }

/-! ## Checks -/

theorem mapError_bind {α β : Type} (check : Except Fault α) (next : α → Except Fault β) :
    (check >>= next).mapError (Fault.rename r) =
      check.mapError (Fault.rename r) >>= fun a => (next a).mapError (Fault.rename r) := by
  cases check <;> rfl

theorem validName_rename (name : String) :
    validName (r.map name) = (validName name).mapError (Fault.rename r) := by
  rw [validName, validName, r.isValid_map]
  split <;> rfl

/-- A text that is no number is quoted as it is. -/
theorem numeric_rename (text : String) :
    (numeric text).mapError (Fault.rename r) = numeric text := by
  unfold numeric
  split <;> rfl

section

variable (machine : Machine) (dest src : String)

theorem fetch_rename (operand : Operand) (name : String) :
    (machine.rename r).fetch operand (r.map name) =
      (machine.fetch operand name).mapError (Fault.rename r) := by
  have hget : (machine.rename r).store.get? (r.map name) = machine.store.get? name :=
    machine.store.get?_rename r name
  rw [fetch, fetch, hget]
  split <;> rfl

theorem fetchPair_rename :
    (machine.rename r).fetchPair (r.map dest) (r.map src) =
      (machine.fetchPair dest src).mapError (Fault.rename r) := by
  simp only [fetchPair, fetch_rename, mapError_bind]
  rfl

theorem numericPair_rename :
    (machine.rename r).numericPair (r.map dest) (r.map src) =
      (machine.numericPair dest src).mapError (Fault.rename r) := by
  simp only [numericPair, fetchPair_rename, mapError_bind, numeric_rename]
  rfl

theorem binaryResult_rename (op : BinaryOp) :
    (machine.rename r).binaryResult op (r.map dest) (r.map src) =
      (machine.binaryResult op dest src).mapError (Fault.rename r) := by
  simp only [binaryResult, fetchPair_rename, mapError_bind, numeric_rename]
  congr 1
  funext texts
  congr 1
  funext lhs
  congr 1
  funext rhs
  cases op.apply lhs rhs <;> rfl

theorem wordAt_rename :
    (machine.rename r).wordAt (r.map dest) =
      (machine.wordAt dest).mapError (Fault.rename r) := by
  simp only [wordAt, fetch_rename, mapError_bind, numeric_rename]

end

/-! ## One instruction -/

/-- The stages that a renamed check leads to, if from the same findings come the same stages up to
names. -/
theorem map_rename {α : Type} {check renamed : Except Fault α} {before after : α → List Store}
    (hcheck : renamed = check.mapError (Fault.rename r))
    (h : ∀ a, after a = (before a).map (Store.rename r)) :
    renamed.map after =
      ((check.map before).mapError (Fault.rename r)).map (·.map (Store.rename r)) := by
  subst hcheck
  cases check with
  | error fault => rfl
  | ok a => exact congrArg Except.ok (h a)

theorem stages_rename (machine : Machine) (instruction : Instruction) :
    (machine.rename r).stages (instruction.rename r) =
      ((machine.stages instruction).mapError (Fault.rename r)).map (·.map (Store.rename r)) := by
  have hset : ∀ name content, (machine.rename r).store.set (r.map name) content =
      (machine.store.set name content).rename r := machine.store.set_rename r
  cases instruction with
  | declare name width literal =>
    exact map_rename r (validName_rename r name) fun _ => by simp [hset]
  | binary op dest src =>
    exact map_rename r (machine.binaryResult_rename r dest src op) fun _ => by simp [hset]
  | move dest src =>
    refine map_rename r ?_ fun _ => by simp [hset]
    rw [mapError_bind, validName_rename, numericPair_rename]
  | exchange dest src =>
    exact map_rename r (machine.numericPair_rename r dest src) fun _ => by simp [hset]
  | increment dest =>
    exact map_rename r (machine.wordAt_rename r dest) fun _ => by simp [hset]
  | decrement dest =>
    refine map_rename r (machine.wordAt_rename r dest) fun _ => ?_
    have hrule : (machine.rename r).settings.decrement = machine.settings.decrement := rfl
    rw [hrule]
    cases machine.settings.decrement <;> simp [hset]

/-- A renamed instruction does the same to a renamed machine; the dumps, which have no names in them,
are the same. -/
theorem effect_rename (machine : Machine) (instruction : Instruction) :
    (machine.rename r).effect (instruction.rename r) =
      ⟨(machine.effect instruction).store.rename r, (machine.effect instruction).dumps,
        (machine.effect instruction).fault.map (Fault.rename r)⟩ := by
  rw [effect, stages_rename, effect]
  cases machine.stages instruction with
  | error fault => rfl
  | ok stores =>
    have hlast : (stores.map (Store.rename r)).getLast?.getD (machine.store.rename r) =
        (stores.getLast?.getD machine.store).rename r := by
      rw [List.getLast?_map, Option.getD_map]
    simp only [Except.mapError, Except.map, List.map_map]
    exact congrArg (Effect.mk · _ none) hlast

end Machine

/-- The outcome with its names renamed. -/
def Outcome.rename (r : Renaming) (outcome : Outcome) : Outcome :=
  ⟨outcome.machine.rename r, outcome.fault.map (Fault.rename r)⟩

namespace Machine

variable (r : Renaming)

/-- **`perform_rename`**: to rename and to perform is to perform and to rename. -/
theorem perform_rename (machine : Machine) (instruction : Instruction) :
    (machine.rename r).perform (instruction.rename r) = (machine.perform instruction).rename r := by
  rw [perform_eq_absorb, effect_rename, perform_eq_absorb]
  rfl

theorem execute_rename (machine : Machine) {line other : String} {instruction : Instruction}
    (hline : Instruction.ofLine line = .ok instruction)
    (hother : Instruction.ofLine other = .ok (instruction.rename r)) :
    (machine.rename r).execute other = (machine.execute line).rename r := by
  have hperform := machine.nextLine.perform_rename r instruction
  simp only [execute, hline, hother]
  exact hperform

end Machine

/-! ## Runs -/

/-- Two commands that hand over an instruction and the renamed instruction, and both in the same way:
as it is, or by any two lines that read as the one and the other. -/
inductive Command.Renamed (r : Renaming) : Command → Command → Prop where
  | perform (instruction : Instruction) :
    Renamed r (.perform instruction) (.perform (instruction.rename r))
  | execute {line other : String} {instruction : Instruction} :
    Instruction.ofLine line = .ok instruction →
      Instruction.ofLine other = .ok (instruction.rename r) →
        Renamed r (.execute line) (.execute other)
  | emit {line other : String} {instruction : Instruction} :
    Instruction.ofLine line = .ok instruction →
      Instruction.ofLine other = .ok (instruction.rename r) → Renamed r (.emit line) (.emit other)

namespace Machine

variable {r : Renaming}

theorem obey_rename (machine : Machine) {command other : Command} (h : command.Renamed r other) :
    (machine.rename r).obey other = (machine.obey command).rename r := by
  cases h with
  | perform instruction => exact machine.perform_rename r instruction
  | execute hline hother => exact machine.execute_rename r hline hother
  | emit hline hother =>
    simp only [obey, emit, machine.execute_rename r hline hother]
    rfl

theorem obeyAll_rename (machine : Machine) {commands others : List Command}
    (h : List.Forall₂ (Command.Renamed r) commands others) :
    (machine.rename r).obeyAll others = (machine.obeyAll commands).rename r := by
  induction h generalizing machine with
  | nil => rfl
  | cons hfirst _ ih =>
    rw [obeyAll_cons, obeyAll_cons, obey_rename machine hfirst]
    exact ih _

/-- **`renaming_changes_names_only`**: commands and the same commands with all names renamed are given
to fresh machines. After any number of them, the transcripts are the same, and so are the counts of
lines; each new name has the key and the text that the old one has, and no other names are bound. The
next command has a fault in both or in neither, and it is the same fault up to names. -/
theorem renaming_changes_names_only (r : Renaming) (settings : Settings)
    (commands renamed : List Command) (h : List.Forall₂ (Command.Renamed r) commands renamed)
    (count : Nat) :
    let before := (fresh settings).obeyAll (commands.take count)
    let after := (fresh settings).obeyAll (renamed.take count)
    (∀ command other, commands[count]? = some command → renamed[count]? = some other →
      (after.obey other).fault = (before.obey command).fault.map (Fault.rename r)) ∧
    (after.transcript = before.transcript ∧ after.line = before.line) ∧
    (∀ name, after.store.key? (r.map name) = before.store.key? name ∧
      after.store.get? (r.map name) = before.store.get? name) ∧
    (after.store.names = before.store.names.map r.map ∧
      after.store.nextKey = before.store.nextKey) := by
  intro before after
  have hafter : after = before.rename r :=
    (fresh settings).obeyAll_rename (List.forall₂_take count h)
  rw [hafter]
  refine ⟨fun command other hcommand hother => ?_, ⟨rfl, rfl⟩, fun name => ⟨?_, ?_⟩,
    before.store.names_rename r, rfl⟩
  · obtain ⟨hlt, rfl⟩ := List.getElem?_eq_some_iff.1 hcommand
    obtain ⟨hlt', rfl⟩ := List.getElem?_eq_some_iff.1 hother
    have hboth : commands[count].Renamed r renamed[count] := h.get hlt hlt'
    rw [before.obey_rename hboth]
    rfl
  · exact before.store.key?_rename r name
  · exact before.store.get?_rename r name

/-- The names `A` and `MOV` are interchanged. A declaration, one of a name that is not valid and a
legacy decrement are handed over by lines, a declaration and a division by zero as they are. -/
theorem renaming_changes_names_only_swap :
    let r := Renaming.swap "A" "MOV" rfl
    let commands : List Command :=
      [.execute "A DB ff", .execute "1x DW 0", .emit "DEC A", .perform (.declare "MOV" .byte "0"),
        .perform (.binary .div "A" "MOV")]
    let renamed : List Command :=
      [.execute "MOV DB ff", .execute "1x,DW,0", .emit "DEC MOV", .perform (.declare "A" .byte "0"),
        .perform (.binary .div "MOV" "A")]
    let before := (fresh {}).obeyAll (commands.take 4)
    let after := (fresh {}).obeyAll (renamed.take 4)
    (before.obey (.perform (.binary .div "A" "MOV"))).fault = some (.divisionByZero "A" "MOV") ∧
    (after.obey (.perform (.binary .div "MOV" "A"))).fault = some (.divisionByZero "MOV" "A") ∧
    after.transcript = before.transcript ∧ after.store.get? (r.map "A") = some "101" := by
  intro r commands renamed before after
  have hdeclare : Instruction.ofLine "A DB ff" = .ok (.declare "A" .byte "ff") := by decide
  have hinvalid : Instruction.ofLine "1x DW 0" = .ok (.declare "1x" .word "0") := by decide
  have hdecrement : Instruction.ofLine "DEC A" = .ok (.decrement "A") := by decide
  have hrenamed : List.Forall₂ (Command.Renamed r) commands renamed :=
    .cons (.execute hdeclare (by decide)) (.cons (.execute hinvalid (by decide))
      (.cons (.emit hdecrement (by decide)) (.cons (.perform _) (.cons (.perform _) .nil))))
  obtain ⟨hfault, ⟨htranscript, -⟩, hstore, -⟩ :=
    renaming_changes_names_only r {} commands renamed hrenamed 4
  have hdivision : (before.obey (.perform (.binary .div "A" "MOV"))).fault =
      some (.divisionByZero "A" "MOV") := by decide
  have hrenamedDivision := hfault _ _ rfl rfl
  rw [hdivision] at hrenamedDivision
  have htext : before.store.get? "A" = some "101" := by decide
  exact ⟨hdivision, hrenamedDivision, htranscript, (hstore "A").2.trans htext⟩

end Machine

end HexMachine
