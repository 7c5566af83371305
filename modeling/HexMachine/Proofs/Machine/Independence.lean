import HexMachine.Proofs.Machine.Binding
import HexMachine.Proofs.Machine.Writes

/-!
# Independent instructions commute

Two instructions are independent if neither writes a name that the other one touches. Main statement
`independent_instructions_commute`: on every machine that commands lead to, independent instructions
can change places. Each has the same fault or none in either order, and the same texts are left. So
are the same keys, unless both instructions bind a name; then the keys are issued in the other order.

An instruction finds what it comes to under the names it touches, and these are as they were when an
independent one has gone before. What is left to show is that texts written under different names do
not get in each other's way, and that a store without gaps is determined by its names in order and
its texts.
-/
namespace HexMachine

namespace Instruction

/-- Neither instruction writes a name that the other one touches. -/
def Independent (first second : Instruction) : Prop :=
  (∀ name ∈ first.written, name ∉ second.touched) ∧ ∀ name ∈ second.written, name ∉ first.touched

instance (first second : Instruction) : Decidable (Independent first second) :=
  inferInstanceAs (Decidable (_ ∧ _))

theorem Independent.symm {first second : Instruction} (h : Independent first second) :
    Independent second first := ⟨h.2, h.1⟩

end Instruction

open Instruction (Independent)

/-- Writes show under a name as far as the text there before them does. -/
theorem Store.get?_setAll_congr {a b : Store} (ha : a.Aligned) (hb : b.Aligned) {name : String}
    (h : a.get? name = b.get? name) (writes : List (String × Content)) :
    (a.setAll writes).get? name = (b.setAll writes).get? name := by
  induction writes generalizing a b with
  | nil => exact h
  | cons write rest ih =>
    refine ih (ha.set write.1 write.2) (hb.set write.1 write.2) ?_
    rw [ha.get?_set, hb.get?_set, h]

namespace Machine

/-! ## Faults and texts -/

section

variable {machine : Machine} {first second : Instruction}

theorem gapless_perform (h : machine.store.Gapless) (instruction : Instruction) :
    (machine.perform instruction).machine.store.Gapless := by
  cases hwrites : machine.writes instruction with
  | ok list =>
    rw [(perform_of_writes hwrites).2]
    exact h.setAll list
  | error fault =>
    rw [(perform_of_error hwrites).2]
    exact h

/-- An instruction that comes to the same on two machines has the same fault, and shows under a name
as far as the text there before it does. -/
theorem perform_congr {a b : Machine} (ha : a.store.Aligned) (hb : b.store.Aligned)
    {instruction : Instruction} (h : a.writes instruction = b.writes instruction) :
    (a.perform instruction).fault = (b.perform instruction).fault ∧
    ∀ name, a.store.get? name = b.store.get? name →
      (a.perform instruction).machine.store.get? name =
        (b.perform instruction).machine.store.get? name := by
  cases hwrites : b.writes instruction with
  | ok list =>
    obtain ⟨hfault, hstore⟩ := perform_of_writes (h.trans hwrites)
    obtain ⟨hfault', hstore'⟩ := perform_of_writes hwrites
    rw [hfault, hfault', hstore, hstore']
    exact ⟨rfl, fun name hname => Store.get?_setAll_congr ha hb hname list⟩
  | error fault =>
    obtain ⟨hfault, hstore⟩ := perform_of_error (h.trans hwrites)
    obtain ⟨hfault', hstore'⟩ := perform_of_error hwrites
    rw [hfault, hfault', hstore, hstore']
    exact ⟨rfl, fun name hname => hname⟩

/-- An instruction comes to the same after an independent one. -/
theorem writes_perform_of_independent (hgapless : machine.store.Gapless)
    (h : Independent first second) :
    (machine.perform first).machine.writes second = machine.writes second := by
  refine writes_congr (by rw [perform_settings]) fun name hname => ?_
  refine get?_perform_of_not_mem hgapless.aligned fun hwritten => ?_
  exact h.1 name hwritten hname

theorem fault_perform_of_independent (hgapless : machine.store.Gapless)
    (h : Independent first second) :
    ((machine.perform first).machine.perform second).fault = (machine.perform second).fault :=
  (perform_congr (gapless_perform hgapless first).aligned hgapless.aligned
    (writes_perform_of_independent hgapless h)).1

/-- Of a name that the second instruction does not write, the first one leaves the same text whether
it comes before or after. -/
theorem get?_perform_perform_of_not_mem (hgapless : machine.store.Gapless)
    (h : Independent first second) {name : String} (hname : name ∉ second.written) :
    ((machine.perform first).machine.perform second).machine.store.get? name =
      ((machine.perform second).machine.perform first).machine.store.get? name := by
  have hfirst := (gapless_perform hgapless first).aligned
  have hsecond := (gapless_perform hgapless second).aligned
  have hsame := writes_perform_of_independent hgapless h.symm
  have hbefore : (machine.perform second).machine.store.get? name = machine.store.get? name :=
    get?_perform_of_not_mem hgapless.aligned hname
  rw [get?_perform_of_not_mem hfirst hname]
  exact ((perform_congr hsecond hgapless.aligned hsame).2 name hbefore).symm

theorem get?_perform_perform (hgapless : machine.store.Gapless) (h : Independent first second)
    (name : String) :
    ((machine.perform first).machine.perform second).machine.store.get? name =
      ((machine.perform second).machine.perform first).machine.store.get? name := by
  -- no name is written by both
  by_cases hname : name ∈ second.written
  · have hfirst : name ∉ first.written :=
      fun hmem => h.1 name hmem (Instruction.mem_touched_of_mem_written hname)
    exact (get?_perform_perform_of_not_mem hgapless h.symm hfirst).symm
  · exact get?_perform_perform_of_not_mem hgapless h hname

end

/-! ## Names and keys -/

/-- The name that an instruction binds: it declares the name without a fault, and the name was not
bound before. -/
def binds? (machine : Machine) (instruction : Instruction) : Option String :=
  match (machine.perform instruction).fault with
  | some _ => none
  | none => instruction.declares?.filter fun name => (machine.store.key? name).isNone

/-- The name that an instruction binds comes after those bound before; there are no others. -/
theorem names_perform (machine : Machine) (instruction : Instruction) :
    (machine.perform instruction).machine.store.names =
      machine.store.names ++ (machine.binds? instruction).toList := by
  have hchange := machine.perform_change instruction
  unfold binds?
  generalize (machine.perform instruction).fault = fault at hchange ⊢
  generalize (machine.perform instruction).machine.store = after at hchange ⊢
  cases hchange with
  | fault => simp
  | @declare name width literal valid =>
    rw [Store.names_set]
    by_cases hname : name ∈ machine.store.names
    · have hbound := Store.mem_names_iff.1 hname
      simp [hname, Instruction.declares?, Option.filter, Option.isNone_iff_eq_none,
        Option.isSome_iff_ne_none.1 hbound]
    · have hunbound := mt Store.mem_names_iff.2 hname
      simp [hname, Instruction.declares?, Option.filter, Option.not_isSome_iff_eq_none.1 hunbound]
  | @rewrite _ writes operation internal =>
    have hkeys := (Store.keys_setAll fun write hwrite => (internal write hwrite).1).1
    simp [operation, Store.names, hkeys]

section

variable {machine : Machine} {first second : Instruction}

/-- An instruction binds the same name after an independent one. -/
theorem binds?_perform_of_independent (hgapless : machine.store.Gapless)
    (h : Independent first second) :
    (machine.perform first).machine.binds? second = machine.binds? second := by
  have hfault := fault_perform_of_independent hgapless h
  unfold binds?
  rw [hfault]
  cases second with
  | declare name width literal =>
    have hget : (machine.perform first).machine.store.get? name = machine.store.get? name :=
      get?_perform_of_not_mem hgapless.aligned fun hwritten => h.1 name hwritten (by simp)
    have hunbound : ((machine.perform first).machine.store.key? name).isNone =
        (machine.store.key? name).isNone := by
      rw [← Option.not_isSome, ← Option.not_isSome, ← hgapless.aligned.get?_isSome,
        ← (gapless_perform hgapless first).aligned.get?_isSome, hget]
    simp only [Instruction.declares?, Option.filter_some, hunbound]
  | _ => rfl

/-- If at most one of two independent instructions binds a name, they leave the same store in either
order. -/
theorem store_perform_perform (hgapless : machine.store.Gapless) (h : Independent first second)
    (hbinds : machine.binds? first = none ∨ machine.binds? second = none) :
    ((machine.perform first).machine.perform second).machine.store =
      ((machine.perform second).machine.perform first).machine.store := by
  refine (gapless_perform (gapless_perform hgapless first) second).ext
    (gapless_perform (gapless_perform hgapless second) first) ?_ (get?_perform_perform hgapless h)
  rw [names_perform, names_perform, names_perform, names_perform,
    binds?_perform_of_independent hgapless h, binds?_perform_of_independent hgapless h.symm]
  rcases hbinds with hnone | hnone <;> simp [hnone]

end

/-- **`independent_instructions_commute`**: on a machine that commands have led to, each of two
independent instructions has the same fault, or none, whether it is performed first or second. The
same texts are left in either order, and if not both instructions bind a name, the same store. -/
theorem independent_instructions_commute (settings : Settings) (commands : List Command)
    (i j : Instruction) (h : Independent i j) :
    let machine := (fresh settings).obeyAll commands
    let forward := (machine.perform i).machine.perform j
    let backward := (machine.perform j).machine.perform i
    backward.fault = (machine.perform i).fault ∧ forward.fault = (machine.perform j).fault ∧
    (∀ name, forward.machine.store.get? name = backward.machine.store.get? name) ∧
    (machine.binds? i = none ∨ machine.binds? j = none →
      forward.machine.store = backward.machine.store) := by
  intro machine forward backward
  have hgapless : machine.store.Gapless := (declared_obeyAll settings commands).gapless
  exact ⟨fault_perform_of_independent hgapless h.symm, fault_perform_of_independent hgapless h,
    get?_perform_perform hgapless h, store_perform_perform hgapless h⟩

/-- A declaration and a division by zero, with the same store in either order; and two declarations,
with the same texts but under keys that are exchanged. -/
theorem independent_instructions_commute_declaration :
    let machine := (fresh {}).obeyAll [.execute "A DB 1", .emit "Z DB 0"]
    let declareD : Instruction := .declare "D" .byte "zz"
    let declareE : Instruction := .declare "E" .word "-1"
    let divide : Instruction := .binary .div "A" "Z"
    ((machine.perform declareD).machine.perform divide).fault = some (.divisionByZero "A" "Z") ∧
    ((machine.perform declareD).machine.perform divide).machine.store =
      ((machine.perform divide).machine.perform declareD).machine.store ∧
    (∀ name, ((machine.perform declareD).machine.perform declareE).machine.store.get? name =
      ((machine.perform declareE).machine.perform declareD).machine.store.get? name) ∧
    ((machine.perform declareD).machine.perform declareE).machine.store ≠
      ((machine.perform declareE).machine.perform declareD).machine.store := by
  intro machine declareD declareE divide
  obtain ⟨-, hfault, -, hstore⟩ := independent_instructions_commute {}
    [.execute "A DB 1", .emit "Z DB 0"] declareD divide (by decide)
  obtain ⟨-, -, htexts, -⟩ := independent_instructions_commute {}
    [.execute "A DB 1", .emit "Z DB 0"] declareD declareE (by decide)
  refine ⟨?_, hstore (.inr (by decide)), htexts, by decide⟩
  rw [hfault]
  decide

end Machine

end HexMachine
