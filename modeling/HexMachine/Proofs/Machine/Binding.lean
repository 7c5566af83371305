import HexMachine.Proofs.Machine.Change

/-!
# Only declarations bind names

Every instruction writes through the same operation of the store, which would bind any name it is
given. Main statement `declarations_bind_names`: from a fresh machine on, whatever it is told, the
bound names are those of the declarations that succeeded, and their keys number them in the order in
which they were first declared.

The invariant is `Declared`, a store against the history of declarations; the step is
`Change.declared`.
-/
namespace HexMachine

/-! ## The history of declarations -/

/-- The name that was declared, if there was a declaration without a fault. -/
def declaredName? (instruction : Option Instruction) (fault : Option Fault) : Option String :=
  match fault with
  | none => instruction.bind Instruction.declares?
  | some _ => none

namespace Machine

/-- The name that a command declares, if it is a declaration and has no fault. -/
def declares? (machine : Machine) (command : Command) : Option String :=
  declaredName? command.instruction? (machine.obey command).fault

/-- The names that commands declare, in order and as often as they are declared. -/
def declared (machine : Machine) : List Command → List String
  | [] => []
  | command :: rest =>
    (machine.declares? command).toList ++ declared (machine.obey command).machine rest

theorem declared_concat (machine : Machine) (commands : List Command) (command : Command) :
    machine.declared (commands ++ [command]) =
      machine.declared commands ++ ((machine.obeyAll commands).declares? command).toList := by
  induction commands generalizing machine with
  | nil => simp [declared, obeyAll]
  | cons first rest ih =>
    rw [List.cons_append, declared, declared, ih, List.append_assoc, obeyAll_cons]

end Machine

/-! ## One step -/

/-- The names of a store are those of a history of declarations, in the order of their first
occurrence and with keys counted in that order. -/
structure Declared (store : Store) (history : List String) : Prop where
  gapless : store.Gapless
  names : store.names = history.eraseDups
  valid : ∀ name ∈ history, Name.isValid name = true

theorem declared_empty : Declared .empty [] := ⟨Store.gapless_empty, rfl, by simp⟩

theorem eraseDups_concat (names : List String) (name : String) :
    (names ++ [name]).eraseDups =
      if name ∈ names.eraseDups then names.eraseDups else names.eraseDups ++ [name] := by
  rw [List.eraseDups_append]
  simp only [List.mem_eraseDups]
  by_cases h : name ∈ names <;> simp [List.removeAll, List.eraseDups_cons, h]

namespace Change

variable {before after : Store} {instruction : Option Instruction} {fault : Option Fault}

theorem declared (hchange : Change before instruction fault after) {history : List String}
    (h : Declared before history) :
    Declared after (history ++ (declaredName? instruction fault).toList) := by
  cases hchange with
  | fault => simpa [declaredName?] using h
  | declare valid =>
    refine ⟨h.gapless.set _ _, ?_, ?_⟩
    · simp only [declaredName?, Option.bind_some, Instruction.declares?, Option.toList_some]
      rw [Store.names_set, h.names, eraseDups_concat]
    · intro name hname
      rcases List.mem_append.1 hname with hold | hnew
      · exact h.valid name hold
      · rw [List.mem_singleton.1 hnew]
        exact valid
  | rewrite operation internal =>
    have hkeys := (Store.keys_setAll fun write hwrite => (internal write hwrite).1).1
    simp only [declaredName?, Option.bind_some, operation, Option.toList_none, List.append_nil]
    -- internal writes are under bound names, so the names stay as they are
    refine ⟨h.gapless.setAll _, ?_, h.valid⟩
    rw [Store.names, hkeys]
    exact h.names

/-- A name that is bound keeps its key. -/
theorem key?_of_some (hchange : Change before instruction fault after) {name : String} {key : Key}
    (h : before.key? name = some key) : after.key? name = some key := by
  cases hchange with
  | fault => exact h
  | declare valid => exact Store.key?_set_of_some h _ _
  | rewrite operation internal => exact Store.key?_setAll_of_some h _

end Change

/-! ## Runs -/

namespace Machine

theorem declared_obeyAll (settings : Settings) (commands : List Command) :
    Declared ((fresh settings).obeyAll commands).store ((fresh settings).declared commands) := by
  induction commands using List.reverseRecOn with
  | nil => exact declared_empty
  | append_singleton commands command ih =>
    rw [declared_concat, obeyAll_append]
    exact (obey_change _ command).declared ih

theorem key?_obeyAll_of_some {machine : Machine} {name : String} {key : Key}
    (h : machine.store.key? name = some key) (commands : List Command) :
    (machine.obeyAll commands).store.key? name = some key := by
  induction commands generalizing machine with
  | nil => exact h
  | cons command rest ih => exact ih ((machine.obey_change command).key?_of_some h)

/-- **`declarations_bind_names`**: after any commands, exactly the names that were declared without
a fault are bound, all of them valid; the distinct ones among them have the keys 1, 2, 3, … in the
order in which they were first declared, and the next key follows; and no later command, whether it
has a fault or not, takes a name its key. -/
theorem declarations_bind_names (settings : Settings) (commands : List Command) :
    let machine := (fresh settings).obeyAll commands
    let distinct := ((fresh settings).declared commands).eraseDups
    (∀ name, (machine.store.key? name).isSome ↔ name ∈ (fresh settings).declared commands) ∧
    (∀ name ∈ (fresh settings).declared commands, Name.isValid name = true) ∧
    (∀ i name, distinct[i]? = some name ↔ machine.store.key? name = some ⟨i + 1⟩) ∧
    (machine.store.size = distinct.length ∧ machine.store.nextKey = machine.store.size + 1) ∧
    (∀ later name key, machine.store.key? name = some key →
      (machine.obeyAll later).store.key? name = some key) := by
  intro machine distinct
  have h : Declared machine.store ((fresh settings).declared commands) :=
    declared_obeyAll settings commands
  have hdistinct : distinct = machine.store.names := h.names.symm
  refine ⟨?_, h.valid, ?_, ⟨?_, ?_⟩, ?_⟩
  · intro name
    rw [← Store.mem_names_iff, h.names, List.mem_eraseDups]
  · intro i name
    rw [hdistinct]
    exact h.gapless.key?_eq_some_iff.symm
  · rw [hdistinct, h.gapless.aligned.size_eq]
  · rw [h.gapless.next, h.gapless.aligned.size_eq]
  · intro later name key hkey
    exact key?_obeyAll_of_some hkey later

/-- Two names, one of them declared twice, and between them a name that is not valid, an operation
on a name that is not bound and a declaration without a literal. -/
theorem declarations_bind_names_redeclared :
    let commands : List Command :=
      [.execute "B DB 1", .execute "1x DB 1", .emit "INC C", .perform (.declare "A" .word "zz"),
        .execute "C DB", .emit "B DW 2"]
    let machine := (fresh {}).obeyAll commands
    (fresh {}).declared commands = ["B", "A", "B"] ∧
    Name.isValid "A" = true ∧ machine.store.key? "A" = some ⟨2⟩ ∧ machine.store.nextKey = 3 ∧
    (machine.obeyAll [.execute "XCHG A B", .perform (.declare "A" .byte "0")]).store.key? "A" =
      some ⟨2⟩ := by
  intro commands machine
  have hdeclared : (fresh {}).declared commands = ["B", "A", "B"] := by decide
  obtain ⟨-, hvalid, hkeys, ⟨hsize, hnext⟩, hstable⟩ := declarations_bind_names {} commands
  have hkey : machine.store.key? "A" = some ⟨2⟩ := (hkeys 1 "A").1 (by rw [hdeclared]; decide)
  refine ⟨hdeclared, hvalid "A" (by rw [hdeclared]; decide), hkey, ?_, hstable _ "A" ⟨2⟩ hkey⟩
  rw [hnext, hsize, hdeclared]
  decide

end Machine

end HexMachine
