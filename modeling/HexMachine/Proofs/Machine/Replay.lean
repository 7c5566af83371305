import HexMachine.Machine.Batch
import HexMachine.Proofs.Instruction.Spelling
import HexMachine.Proofs.Machine.Binding
import HexMachine.Proofs.Machine.Refusal
import HexMachine.Proofs.Token

/-!
# Replaying a snapshot

A store that lines have led to can be written down as lines: one declaration for every bound name,
in the order of the keys. Main statement `replay_restores_store`: these lines run without a fault on a
fresh machine and bring back the same store, keys and next key included.

Three things have to hold of every such store. Its keys have no gaps and its names are valid, which
is so for all commands. And its texts are clean tokens, which needs lines: a literal is cut out of
one, a stored word is hexadecimal digits, and a copy brings in nothing new. An instruction that does
not come from a line may carry a literal with a space in it.
-/
namespace HexMachine

/-! ## Clean texts -/

namespace Token

theorem isClean_hex (word : Word) : IsClean word.hex := by
  have hne : Word.hexDigits word.low ≠ [] := Nat.toDigits_ne_nil
  refine ⟨by simpa [Word.hex] using hne, fun c hc => ?_⟩
  rw [Word.hex, String.toList_ofList] at hc
  exact not_isSeparator_of_class rfl rfl (Word.isHexDigit_of_mem_hexDigits word.low c hc)

end Token

/-! ## Declarations as lines -/

namespace Instruction

theorem isClean_literal {line name literal : String} {width : Width}
    (h : (ofLine line).toOption = some (.declare name width literal)) : Token.IsClean literal := by
  cases hread : ofLine line with
  | error fault =>
    rw [hread] at h
    cases h
  | ok instruction =>
    rw [hread] at h
    cases h
    exact (ofLine_eq_ok_iff.1 hread).1.clean literal (by simp [arguments])

/-- The line that declares a name with a text. -/
def declaration (name text : String) : String := name ++ " DB " ++ text

theorem ofLine_declaration {name text : String} (hname : Token.IsClean name)
    (htext : Token.IsClean text) :
    ofLine (declaration name text) = .ok (.declare name .byte text) := by
  have hmarker : " DB " = " " ++ ("DB" ++ " ") := rfl
  have hwritten : declaration name text = (Instruction.declare name .byte text).text := by
    simp only [declaration, hmarker, Instruction.text, tokens, Width.keyword,
      String.intercalate_cons_cons, String.intercalate_singleton, String.append_assoc]
  rw [hwritten]
  refine ofLine_text ⟨?_, fun dest hdest => ?_⟩
  · simp [arguments, hname, htext]
  · cases hdest

end Instruction

/-! ## Stores that lines lead to -/

/-- A store that can be written down as declarations. -/
structure Replayable (store : Store) : Prop where
  declared : ∃ history, Declared store history
  clean : ∀ name text, store.get? name = some text → Token.IsClean text

theorem Replayable.gapless {store : Store} (h : Replayable store) : store.Gapless := by
  obtain ⟨history, hdeclared⟩ := h.declared
  exact hdeclared.gapless

theorem Replayable.isValid {store : Store} (h : Replayable store) {name : String}
    (hname : name ∈ store.names) : Name.isValid name = true := by
  obtain ⟨history, hdeclared⟩ := h.declared
  rw [hdeclared.names, List.mem_eraseDups] at hname
  exact hdeclared.valid name hname

theorem replayable_empty : Replayable .empty :=
  ⟨⟨[], declared_empty⟩, fun _ _ h => by cases h⟩

theorem Change.replayable {before after : Store} {instruction : Option Instruction}
    {fault : Option Fault} (hchange : Change before instruction fault after)
    (hliteral : ∀ name width literal, instruction = some (.declare name width literal) →
      Token.IsClean literal) (h : Replayable before) : Replayable after := by
  obtain ⟨history, hdeclared⟩ := h.declared
  refine ⟨⟨_, hchange.declared hdeclared⟩, ?_⟩
  exact hchange.forall_text hdeclared.gapless.aligned Token.isClean_hex hliteral h.clean

/-- A command that is given as a line. -/
def Command.isLine : Command → Bool
  | .execute _ => true
  | .emit _ => true
  | .perform _ => false

theorem Command.isClean_literal {command : Command} (h : command.isLine = true)
    {name literal : String} {width : Width}
    (hinstruction : command.instruction? = some (.declare name width literal)) :
    Token.IsClean literal := by
  cases command with
  | execute line => exact Instruction.isClean_literal hinstruction
  | emit line => exact Instruction.isClean_literal hinstruction
  | perform instruction => cases h

namespace Machine

theorem replayable_obeyAll {machine : Machine} {commands : List Command}
    (hlines : ∀ command ∈ commands, command.isLine = true) (h : Replayable machine.store) :
    Replayable (machine.obeyAll commands).store := by
  induction commands generalizing machine with
  | nil => exact h
  | cons command rest ih =>
    have hstep := (machine.obey_change command).replayable
      (fun _ _ _ => command.isClean_literal (hlines command (by simp))) h
    exact ih (fun later hlater => hlines later (by simp [hlater])) hstep

/-! ## The ways to run lines -/

/-- Streaming executes the lines up to some point, and all dumps are handed out. -/
theorem streamFrom_machine {σ : Type} (console : Console σ) (lines : List String)
    (progress : Progress σ) :
    ∃ count, (streamFrom console progress lines).progress.machine =
      progress.machine.obeyAll ((lines.take count).map .emit) := by
  induction lines generalizing progress with
  | nil => exact ⟨0, rfl⟩
  | cons line rest ih =>
    cases hsent : (progress.sent console line).refused with
    | some channel =>
      refine ⟨1, ?_⟩
      rw [streamFrom_cons_of_refused hsent, List.take_succ_cons, List.map_cons, obeyAll_cons]
      rfl
    | none =>
      rw [streamFrom_cons_of_taken hsent]
      obtain ⟨count, hcount⟩ := ih (progress.next console line)
      refine ⟨count + 1, ?_⟩
      rw [hcount, List.take_succ_cons, List.map_cons, obeyAll_cons]
      rfl

/-- The machines that lines lead to from a fresh one, executed one by one, run as a list or streamed
to any console. -/
inductive FromLines (settings : Settings) : Machine → Prop where
  | fresh : FromLines settings (fresh settings)
  | execute {machine : Machine} (line : String) :
    FromLines settings machine → FromLines settings (machine.execute line).machine
  | run {machine : Machine} (lines : List String) :
    FromLines settings machine → FromLines settings (machine.run lines).2
  | stream {machine : Machine} {σ : Type} (console : Console σ) (start : σ) (lines : List String) :
    FromLines settings machine →
      FromLines settings (machine.stream console start lines).progress.machine

theorem FromLines.replayable {settings : Settings} {machine : Machine}
    (h : FromLines settings machine) : Replayable machine.store := by
  induction h with
  | fresh => exact replayable_empty
  | @execute machine line _ ih =>
    exact (machine.execute_change line).replayable (fun _ _ _ => Instruction.isClean_literal) ih
  | @run machine lines _ ih =>
    rw [Machine.run, foldl_runLine]
    exact replayable_obeyAll (List.forall_mem_map.2 fun _ _ => rfl) ih
  | @stream machine σ console start lines _ ih =>
    obtain ⟨count, hcount⟩ := streamFrom_machine console lines ⟨machine, start, #[], {}⟩
    rw [Machine.stream, hcount]
    exact replayable_obeyAll (List.forall_mem_map.2 fun _ _ => rfl) ih

/-! ## Running a snapshot -/

theorem execute_declaration (machine : Machine) {name text : String}
    (hname : Name.isValid name = true) (htext : Token.IsClean text) :
    (machine.execute (Instruction.declaration name text)).fault = none ∧
      (machine.execute (Instruction.declaration name text)).machine.store =
        machine.store.set name (.text text) := by
  have hline := Instruction.ofLine_declaration (Token.isClean_of_isValid hname) htext
  simp only [execute, hline, perform, declare, validName, hname, if_true, attempt, dump_store,
    true_and]
  rfl

/-- Lines that declare valid names with clean texts add no failure and write the texts. -/
theorem foldl_runLine_declarations {entries : List (String × String)}
    (hentries : ∀ entry ∈ entries, Name.isValid entry.1 = true ∧ Token.IsClean entry.2)
    {state after : Summary × Machine}
    (hafter : (entries.map fun entry => Instruction.declaration entry.1 entry.2).foldl
      runLine state = after) :
    after.1.failures = state.1.failures ∧
      after.2.store = state.2.store.setAll (entries.map fun entry => (entry.1, .text entry.2)) := by
  induction entries generalizing state with
  | nil =>
    subst hafter
    exact ⟨rfl, rfl⟩
  | cons entry rest ih =>
    obtain ⟨hname, htext⟩ := hentries entry (by simp)
    obtain ⟨hfault, hstore⟩ := state.2.execute_declaration hname htext
    rw [List.map_cons, List.foldl_cons] at hafter
    obtain ⟨hfailures, hrest⟩ := ih (fun later hlater => hentries later (by simp [hlater])) hafter
    simp only [runLine, hfault, hstore, Summary.note] at hfailures hrest
    exact ⟨hfailures, hrest⟩

/-- **`replay_restores_store`**: let lines have led to a machine. Its snapshot has the bound names
with their texts, in the order of their keys, which are 1, 2, 3, …; and the declarations of the
snapshot, run on a fresh machine with any settings, have no fault and leave the same store. -/
theorem replay_restores_store (settings : Settings) (machine : Machine)
    (h : FromLines settings machine) (other : Settings) :
    let snapshot := machine.store.snapshot
    let replay := (fresh other).run
      (snapshot.map fun entry => Instruction.declaration entry.1 entry.2)
    (∀ name text, (name, text) ∈ snapshot ↔ machine.store.get? name = some text) ∧
    snapshot.map (fun entry => machine.store.key? entry.1) =
      (List.range' 1 snapshot.length).map (fun i => some ⟨i⟩) ∧
    replay.1.isClean = true ∧ replay.2.store = machine.store := by
  intro snapshot replay
  have hreplayable := h.replayable
  have hentries : ∀ entry ∈ snapshot, Name.isValid entry.1 = true ∧ Token.IsClean entry.2 := by
    intro entry hentry
    have htext := Store.mem_snapshot_iff.1 hentry
    exact ⟨hreplayable.isValid (Store.mem_names_of_get? htext), hreplayable.clean _ _ htext⟩
  obtain ⟨hfailures, hstore⟩ := foldl_runLine_declarations hentries (show _ = replay from rfl)
  refine ⟨fun _ _ => Store.mem_snapshot_iff, hreplayable.gapless.map_key?_snapshot, ?_, ?_⟩
  · rw [Summary.isClean, show replay.1.failures = _ from hfailures]
    rfl
  · exact hstore.trans hreplayable.gapless.setAll_snapshot

/-- A variable that is called like a mnemonic, a literal with a sign and a marker, and an exchange
streamed to a console that takes nothing. -/
theorem replay_restores_store_exchange :
    let declared := ((fresh {}).run ["MOV DB ff", "B DW -0x1"]).2
    let streamed := declared.stream (.limited (some 0) none) {} ["XCHG MOV B", "INC B"]
    let machine := streamed.progress.machine
    let replay := (fresh {}).run ["MOV DB -0x1", "B DB ff"]
    replay.1.isClean = true ∧ replay.2.store = machine.store := by
  intro declared streamed machine replay
  have hlines : FromLines {} machine := (FromLines.fresh.run _).stream _ _ _
  have hsnapshot : machine.store.snapshot = [("MOV", "-0x1"), ("B", "ff")] := by decide
  have hreplay := (replay_restores_store {} machine hlines {}).2.2
  simp only [hsnapshot] at hreplay
  exact hreplay

end Machine

end HexMachine
