import HexMachine.Proofs.Machine.Stages
import Mathlib.Logic.Function.Basic

/-!
# The machine as an unsigned 32-bit machine

The machine keeps texts, reads them as signed 64-bit words, wraps around at 64 bits and stores the
low half. `Unsigned` is a machine with none of this: a number below 2^32 under every bound name,
arithmetic modulo 2^32, and division that fails on zero. Main statement `perform_refines_unsigned`:
if all literals are numbers below 2^32, the two run in step on every program. They bind the same
names, every text reads as the number in its place, and each instruction succeeds in both or in
neither.

Step and run are related through `Agree`, which lifts a relation on results to computations that may
fail. The relation on states, `Tracks`, carries two facts that the statement does not mention: the
store is aligned, so that a write shows under its own name alone, and bound names are valid, so that
the check of names by a copy always passes.
-/
namespace HexMachine

/-! ## The unsigned machine -/

/-- The result of an operation on numbers below 2^32, absent when the divisor is zero. -/
def BinaryOp.applyUnsigned (op : BinaryOp) (lhs rhs : UInt32) : Option UInt32 :=
  match op with
  | .add => some (lhs + rhs)
  | .sub => some (lhs - rhs)
  | .div => if rhs = 0 then none else some (lhs / rhs)
  | .mul => some (lhs * rhs)
  | .and => some (lhs &&& rhs)
  | .or => some (lhs ||| rhs)
  | .xor => some (lhs ^^^ rhs)

namespace Unsigned

/-- A number below 2^32 under every bound name. -/
abbrev Registers := String → Option UInt32

/-- The number a literal stands for, if it is below 2^32. -/
def literal? (literal : String) : Option UInt32 :=
  match Word.read literal with
  | .ok word =>
    if 0 ≤ word.toInt ∧ word.toInt < UInt32.size then some (UInt32.ofNat word.toInt.toNat) else none
  | .error _ => none

def set (registers : Registers) (name : String) (number : UInt32) : Registers :=
  Function.update registers name (some number)

def pair (registers : Registers) (dest src : String) : Option (UInt32 × UInt32) := do
  let lhs ← registers dest
  let rhs ← registers src
  return (lhs, rhs)

/-- The registers after an instruction, if it succeeds. -/
def step (rule : DecrementRule) (registers : Registers) : Instruction → Option Registers
  | .declare name _ literal =>
    if Name.isValid name then (literal? literal).map (set registers name) else none
  | .binary op dest src =>
    (pair registers dest src >>= fun numbers => op.applyUnsigned numbers.1 numbers.2).map
      (set registers dest)
  | .move dest src => (pair registers dest src).map fun numbers => set registers dest numbers.2
  | .exchange dest src =>
    (pair registers dest src).map fun numbers => set (set registers dest numbers.2) src numbers.1
  | .increment dest => (registers dest).map fun number => set registers dest (number + 1)
  | .decrement dest =>
    (registers dest).map fun number =>
      match rule with
      | .legacy => set registers dest (number + 2)
      | .subtract => set registers dest (number - 1)

/-- The registers after an instruction, which changes nothing if it fails. -/
def next (rule : DecrementRule) (registers : Registers) (instruction : Instruction) : Registers :=
  (step rule registers instruction).getD registers

/-- The registers after a program, with no name bound before it. -/
def run (rule : DecrementRule) (program : List Instruction) : Registers :=
  program.foldl (next rule) fun _ => none

/-! ## Texts and numbers -/

/-- A text stands for a number. -/
def Reads (text : String) (number : UInt32) : Prop :=
  ∃ word, Word.read text = .ok word ∧ word.toInt = number.toNat

theorem reads_hex (word : Word) : Reads word.hex word.residue :=
  ⟨word.lowHalf, Word.read_hex word, Word.toInt_lowHalf word⟩

/-- A literal that reads as a number below 2^32. -/
def InRange (literal : String) : Prop :=
  ∃ word, Word.read literal = .ok word ∧ 0 ≤ word.toInt ∧ word.toInt < UInt32.size

theorem literal?_of_inRange {literal : String} (h : InRange literal) :
    ∃ number, literal? literal = some number ∧ Reads literal number := by
  obtain ⟨word, hread, hlow, hhigh⟩ := h
  refine ⟨UInt32.ofNat word.toInt.toNat, ?_, word, hread, ?_⟩
  · simp only [literal?, hread, if_pos (And.intro hlow hhigh)]
  · rw [UInt32.toNat_ofNat_of_lt' (by omega)]
    omega

/-- On words that hold numbers below 2^32, an operation stores what the unsigned one gives. -/
theorem apply_eq_applyUnsigned (op : BinaryOp) {a b : Word} {m n : UInt32}
    (ha : a.toInt = m.toNat) (hb : b.toInt = n.toNat) :
    (op.apply a b).map Word.residue = op.applyUnsigned m n := by
  have hm := Word.residue_of_toInt ha
  have hn := Word.residue_of_toInt hb
  cases op with
  | div =>
    have hzero := Word.eq_zero_iff_of_toInt hb
    by_cases h : n = 0
    · simp [BinaryOp.apply, BinaryOp.applyUnsigned, hzero.2 h, h]
    · simp [BinaryOp.apply, BinaryOp.applyUnsigned, mt hzero.1 h, h, Word.residue_div ha hb]
  | _ => simp [BinaryOp.apply, BinaryOp.applyUnsigned, hm, hn]

/-! ## Computations that agree -/

/-- Both computations fail, or both succeed with related results. -/
inductive Agree {α β : Type} (related : α → β → Prop) : Except Fault α → Option β → Prop where
  | success {a : α} {b : β} : related a b → Agree related (.ok a) (some b)
  | failure {fault : Fault} : Agree related (.error fault) none

theorem Agree.bind {α β γ δ : Type} {related : α → β → Prop} {related' : γ → δ → Prop}
    {x : Except Fault α} {y : Option β} {f : α → Except Fault γ} {g : β → Option δ}
    (h : Agree related x y) (hnext : ∀ a b, related a b → Agree related' (f a) (g b)) :
    Agree related' (x >>= f) (y >>= g) := by
  cases h with
  | success hab => exact hnext _ _ hab
  | failure => exact .failure

theorem Agree.map {α β γ δ : Type} {related : α → β → Prop} {related' : γ → δ → Prop}
    {x : Except Fault α} {y : Option β} {f : α → γ} {g : β → δ}
    (h : Agree related x y) (hnext : ∀ a b, related a b → related' (f a) (g b)) :
    Agree related' (x.map f) (y.map g) := by
  cases h with
  | success hab => exact .success (hnext _ _ hab)
  | failure => exact .failure

/-! ## States that agree -/

/-- The store holds the registers' numbers as texts. -/
structure Tracks (store : Store) (registers : Registers) : Prop where
  aligned : store.Aligned
  valid : ∀ name, (registers name).isSome → Name.isValid name = true
  texts : ∀ name, Option.Rel Reads (store.get? name) (registers name)

theorem tracks_empty : Tracks .empty fun _ => none := by
  refine ⟨Store.aligned_empty, ?_, fun _ => .none⟩
  intro name h
  cases h

theorem Tracks.set {store : Store} {registers : Registers} (h : Tracks store registers)
    {name : String} (hvalid : Name.isValid name = true) (content : Content) {number : UInt32}
    (hreads : Reads content.encode number) :
    Tracks (store.set name content) (Unsigned.set registers name number) := by
  refine ⟨h.aligned.set name content, ?_, ?_⟩
  · intro other hother
    by_cases e : other = name
    · rw [e]
      exact hvalid
    · rw [Unsigned.set, Function.update_of_ne e] at hother
      exact h.valid other hother
  · intro other
    by_cases e : other = name
    · rw [e, store.get?_set_self, Unsigned.set, Function.update_self]
      exact .some hreads
    · rw [h.aligned.get?_set_of_ne (Ne.symm e), Unsigned.set, Function.update_of_ne e]
      exact h.texts other

/-- A word is stored as the number it is modulo 2^32. -/
theorem Tracks.set_word {store : Store} {registers : Registers} (h : Tracks store registers)
    {name : String} (hvalid : Name.isValid name = true) {word : Word} {number : UInt32}
    (hword : word.residue = number) :
    Tracks (store.set name (.word word)) (Unsigned.set registers name number) := by
  refine h.set hvalid (.word word) ?_
  rw [← hword]
  exact reads_hex word

section Step

variable {machine : Machine} {registers : Registers}

theorem fetch_agree (h : Tracks machine.store registers) (operand : Operand) (name : String) :
    Agree (fun text number => Reads text number ∧ Name.isValid name = true)
      (machine.fetch operand name) (registers name) := by
  have htext := h.texts name
  have hvalid := h.valid name
  unfold Machine.fetch
  generalize machine.store.get? name = text at htext ⊢
  generalize registers name = number at htext hvalid ⊢
  cases htext with
  | some hreads => exact .success ⟨hreads, hvalid rfl⟩
  | none => exact .failure

/-- What is known of two operands once both have been found. -/
def Operands (dest src : String) (texts : String × String) (numbers : UInt32 × UInt32) : Prop :=
  (Reads texts.1 numbers.1 ∧ Name.isValid dest = true) ∧
    (Reads texts.2 numbers.2 ∧ Name.isValid src = true)

theorem fetchPair_agree (h : Tracks machine.store registers) (dest src : String) :
    Agree (Operands dest src) (machine.fetchPair dest src) (pair registers dest src) := by
  refine (fetch_agree h .destination dest).bind fun destText lhs hdest => ?_
  refine (fetch_agree h .source src).bind fun srcText rhs hsrc => ?_
  exact .success ⟨hdest, hsrc⟩

theorem numeric_of_reads {text : String} {number : UInt32} (h : Reads text number) :
    ∃ word, Machine.numeric text = .ok word ∧ word.toInt = number.toNat := by
  obtain ⟨word, hread, hvalue⟩ := h
  exact ⟨word, by simp only [Machine.numeric, hread], hvalue⟩

theorem numericPair_agree (h : Tracks machine.store registers) (dest src : String) :
    Agree (Operands dest src) (machine.numericPair dest src) (pair registers dest src) := by
  rw [← Option.bind_fun_some (pair registers dest src)]
  refine (fetchPair_agree h dest src).bind fun texts numbers hops => ?_
  obtain ⟨lhs, hlhs, -⟩ := numeric_of_reads hops.1.1
  obtain ⟨rhs, hrhs, -⟩ := numeric_of_reads hops.2.1
  simp only [hlhs, hrhs]
  exact .success hops

theorem binaryResult_agree (h : Tracks machine.store registers) (op : BinaryOp)
    (dest src : String) :
    Agree (fun word number => word.residue = number ∧ Name.isValid dest = true)
      (machine.binaryResult op dest src)
      (pair registers dest src >>= fun numbers => op.applyUnsigned numbers.1 numbers.2) := by
  refine (fetchPair_agree h dest src).bind fun texts numbers hops => ?_
  obtain ⟨lhs, hlhs, hleft⟩ := numeric_of_reads hops.1.1
  obtain ⟨rhs, hrhs, hright⟩ := numeric_of_reads hops.2.1
  simp only [hlhs, hrhs, bind, Except.bind]
  rw [← apply_eq_applyUnsigned op hleft hright]
  cases op.apply lhs rhs with
  | some word => exact .success ⟨rfl, hops.1.2⟩
  | none => exact .failure

theorem wordAt_agree (h : Tracks machine.store registers) (dest : String) :
    Agree (fun word number => word.toInt = number.toNat ∧ Name.isValid dest = true)
      (machine.wordAt dest) (registers dest) := by
  rw [← Option.bind_fun_some (registers dest)]
  refine (fetch_agree h .destination dest).bind fun text number htext => ?_
  obtain ⟨word, hword, hvalue⟩ := numeric_of_reads htext.1
  rw [hword]
  exact .success ⟨hvalue, htext.2⟩

/-- The literal of a declaration is in range; other instructions have none. -/
def LiteralInRange : Instruction → Prop
  | .declare _ _ literal => InRange literal
  | _ => True

/-- One step: the instruction has stages exactly when the unsigned machine has a successor, and then
the last stage tracks it. -/
theorem stages_agree (h : Tracks machine.store registers) {instruction : Instruction}
    (hliteral : LiteralInRange instruction) :
    Agree (fun stores after => Tracks (stores.getLast?.getD machine.store) after)
      (machine.stages instruction) (step machine.settings.decrement registers instruction) := by
  cases instruction with
  | declare name width literal =>
    obtain ⟨number, hnumber, hreads⟩ := literal?_of_inRange hliteral
    rw [Machine.stages, Machine.validName, step]
    by_cases hvalid : Name.isValid name = true
    · rw [if_pos hvalid, if_pos hvalid, hnumber]
      exact .success (h.set hvalid (.text literal) hreads)
    · rw [if_neg hvalid, if_neg hvalid]
      exact .failure
  | binary op dest src =>
    exact (binaryResult_agree h op dest src).map fun word number hword =>
      h.set_word hword.2 hword.1
  | move dest src =>
    rw [Machine.stages, Machine.validName, step]
    -- an invalid destination is unbound, so the unsigned machine fails without the check
    by_cases hvalid : Name.isValid dest = true
    · rw [if_pos hvalid]
      exact (numericPair_agree h dest src).map fun texts numbers hops =>
        h.set hvalid (.text texts.2) hops.2.1
    · have hunbound : registers dest = none := by
        rw [← Option.not_isSome_iff_eq_none]
        exact fun hsome => hvalid (h.valid dest hsome)
      rw [if_neg hvalid, pair, hunbound]
      exact .failure
  | exchange dest src =>
    rw [Machine.stages, step]
    refine (numericPair_agree h dest src).map fun texts numbers hops => ?_
    exact (h.set hops.1.2 (.text texts.2) hops.2.1).set hops.2.2 (.text texts.1) hops.1.1
  | increment dest =>
    refine (wordAt_agree h dest).map fun word number hword => h.set_word hword.2 ?_
    rw [Word.residue_add, Word.residue_one, Word.residue_of_toInt hword.1]
  | decrement dest =>
    refine (wordAt_agree h dest).map fun word number hword => ?_
    have hnumber := Word.residue_of_toInt hword.1
    cases machine.settings.decrement with
    | legacy =>
      refine h.set_word hword.2 ?_
      rw [Word.residue_add, Word.residue_add, Word.residue_one, hnumber, UInt32.add_assoc]
      rfl
    | subtract =>
      refine h.set_word hword.2 ?_
      rw [Word.residue_add, Word.residue_neg, Word.residue_one, hnumber, UInt32.sub_eq_add_neg]

theorem perform_tracks (h : Tracks machine.store registers) {instruction : Instruction}
    (hliteral : LiteralInRange instruction) :
    ((machine.perform instruction).fault = none ↔
      (step machine.settings.decrement registers instruction).isSome) ∧
    Tracks (machine.perform instruction).machine.store
      (next machine.settings.decrement registers instruction) := by
  have hagree := stages_agree h hliteral
  rw [Machine.perform_eq_absorb, Machine.effect, next]
  generalize machine.stages instruction = found at hagree ⊢
  generalize step machine.settings.decrement registers instruction = after at hagree ⊢
  cases hagree with
  | success htracks => exact ⟨⟨fun _ => rfl, fun _ => rfl⟩, htracks⟩
  | failure =>
    refine ⟨⟨?_, ?_⟩, h⟩
    · intro hnone
      cases hnone
    · intro hsome
      cases hsome

end Step

/-! ## Runs that agree -/

theorem performAll_tracks {machine : Machine} {registers : Registers}
    (h : Tracks machine.store registers) (program : List Instruction)
    (hliterals : ∀ instruction ∈ program, LiteralInRange instruction) :
    (machine.performAll program).settings = machine.settings ∧
    Tracks (machine.performAll program).store
      (program.foldl (next machine.settings.decrement) registers) := by
  induction program generalizing machine registers with
  | nil => exact ⟨rfl, h⟩
  | cons instruction rest ih =>
    have hstep := (perform_tracks h (hliterals instruction (by simp))).2
    have hsettings := machine.perform_settings instruction
    obtain ⟨hsame, htracks⟩ := ih hstep fun i hi => hliterals i (by simp [hi])
    rw [hsettings] at hsame htracks
    exact ⟨hsame, htracks⟩

/-- The same names are bound, and each text reads as the number in its place. -/
structure Represents (store : Store) (registers : Registers) : Prop where
  bound : ∀ name, (store.key? name).isSome ↔ (registers name).isSome
  reads : ∀ name number, registers name = some number →
    ∃ text, store.get? name = some text ∧ Reads text number

theorem Tracks.represents {store : Store} {registers : Registers} (h : Tracks store registers) :
    Represents store registers := by
  constructor
  · intro name
    have htext := h.texts name
    rw [← h.aligned.get?_isSome name]
    generalize store.get? name = text at htext ⊢
    generalize registers name = number at htext ⊢
    cases htext <;> simp
  · intro name number hnumber
    have htext := h.texts name
    rw [hnumber] at htext
    generalize store.get? name = text at htext ⊢
    cases htext with
    | some hreads => exact ⟨_, rfl, hreads⟩

/-- **`perform_refines_unsigned`**: after any number of steps the store represents the registers of
the unsigned machine, and the next instruction succeeds in both machines or in neither. -/
theorem perform_refines_unsigned (settings : Settings) (program : List Instruction)
    (hliterals : ∀ instruction ∈ program, LiteralInRange instruction) (count : Nat) :
    let machine := (Machine.fresh settings).performAll (program.take count)
    let registers := run settings.decrement (program.take count)
    Represents machine.store registers ∧
    ∀ instruction, program[count]? = some instruction →
      ((machine.perform instruction).fault = none ↔
        (step settings.decrement registers instruction).isSome) := by
  intro machine registers
  have hstart : Tracks (Machine.fresh settings).store fun _ => none := tracks_empty
  obtain ⟨hsettings, htracks⟩ := performAll_tracks hstart (program.take count)
    fun i hi => hliterals i (List.mem_of_mem_take hi)
  refine ⟨htracks.represents, ?_⟩
  intro instruction hnext
  have hmem : instruction ∈ program := List.mem_of_getElem? hnext
  have hstep := (perform_tracks htracks (hliterals instruction hmem)).1
  rw [hsettings] at hstep
  exact hstep

/-- Literals with a sign, a marker and trailing text, a product that wraps around, a decrement, an
exchange, and at last a division by zero. -/
theorem perform_refines_unsigned_division :
    let program : List Instruction :=
      [.declare "A" .byte "ffffffff", .declare "B" .word "+0x10zz", .binary .mul "A" "A",
        .decrement "B", .exchange "A" "B", .declare "C" .byte "0", .binary .div "A" "C"]
    let machine := (Machine.fresh {}).performAll (program.take 6)
    (∃ text, machine.store.get? "A" = some text ∧ Reads text 0x12) ∧
      (machine.perform (.binary .div "A" "C")).fault ≠ none := by
  intro program machine
  have hliterals : ∀ instruction ∈ program, LiteralInRange instruction := by
    intro instruction hmem
    simp only [program, List.mem_cons, List.not_mem_nil, or_false] at hmem
    rcases hmem with rfl | rfl | rfl | rfl | rfl | rfl | rfl
    · exact ⟨0xffffffff, by decide, by decide, by decide⟩
    · exact ⟨0x10, by decide, by decide, by decide⟩
    · trivial
    · trivial
    · trivial
    · exact ⟨0, by decide, by decide, by decide⟩
    · trivial
  obtain ⟨hrepresents, hlast⟩ := perform_refines_unsigned {} program hliterals 6
  refine ⟨hrepresents.reads "A" 0x12 (by decide), ?_⟩
  intro hnone
  have hsome := (hlast (.binary .div "A" "C") rfl).1 hnone
  revert hsome
  decide

end Unsigned

end HexMachine
