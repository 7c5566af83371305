import HexMachine.Proofs.Machine.Writes
import Mathlib.Data.Int.ModEq
import Mathlib.Data.List.Forall2

/-!
# Only values modulo 2^32 matter

Without division, a machine cannot tell a literal from another one that is congruent modulo 2^32. Main
statement `congruent_literals_run_alike`: two programs without division, the same up to such literals,
run in step. Every instruction has the same fault in both or in neither, the same names have the same
keys, and the texts under a name are equal or congruent. Where a result is computed, the texts are
equal.

The two runs are compared through `Interchangeable` texts. A copy or an exchange carries them along as
they are. An operation reads them as words with the same residue, and stores a word with the same
residue again, which is one and the same text. Faults quote texts, and they agree because a text that
cannot be read is interchangeable with itself alone.
-/
namespace HexMachine

/-! ## Texts that cannot be told apart -/

/-- The texts are equal, or both stand for words and these are congruent modulo 2^32. -/
def Interchangeable (first second : String) : Prop :=
  first = second ∨ ∃ a b, Word.read first = .ok a ∧ Word.read second = .ok b ∧
    a.toInt ≡ b.toInt [ZMOD 2 ^ 32]

/-- The instructions are the same, up to interchangeable literals. -/
inductive Instruction.Variant : Instruction → Instruction → Prop where
  | refl (instruction : Instruction) : Variant instruction instruction
  | declare {name literal other : String} {width : Width} :
    Interchangeable literal other →
      Variant (.declare name width literal) (.declare name width other)

/-- Two contents of the same kind: interchangeable texts, or words with the same residue. -/
inductive Content.Matches : Content → Content → Prop where
  | text {first second : String} :
    Interchangeable first second → Matches (.text first) (.text second)
  | word {a b : Word} : a.residue = b.residue → Matches (.word a) (.word b)

theorem Content.Matches.encode {content other : Content} (h : content.Matches other) :
    Interchangeable content.encode other.encode := by
  cases h with
  | text htexts => exact htexts
  | word hresidue => exact .inl (Word.hex_eq_of_residue_eq hresidue)

/-! ## Computations that match -/

/-- Both computations have the same fault, or both succeed with related results. -/
inductive Matched {α β : Type} (related : α → β → Prop) : Except Fault α → Except Fault β → Prop where
  | success {a : α} {b : β} : related a b → Matched related (.ok a) (.ok b)
  | failure {fault : Fault} : Matched related (.error fault) (.error fault)

namespace Matched

variable {α β γ δ : Type} {related : α → β → Prop} {related' : γ → δ → Prop}

theorem bind {x : Except Fault α} {y : Except Fault β} {f : α → Except Fault γ}
    {g : β → Except Fault δ} (h : Matched related x y)
    (hnext : ∀ a b, related a b → Matched related' (f a) (g b)) :
    Matched related' (x >>= f) (y >>= g) := by
  cases h with
  | success hab => exact hnext _ _ hab
  | failure => exact .failure

theorem map {x : Except Fault α} {y : Except Fault β} {f : α → γ} {g : β → δ}
    (h : Matched related x y) (hnext : ∀ a b, related a b → related' (f a) (g b)) :
    Matched related' (x.map f) (y.map g) := by
  cases h with
  | success hab => exact .success (hnext _ _ hab)
  | failure => exact .failure

theorem refl (x : Except Fault α) : Matched Eq x x := by
  cases x with
  | ok a => exact .success rfl
  | error fault => exact .failure

end Matched

/-! ## Stores that match -/

/-- The same names are bound to the same keys, and the texts under each name are interchangeable. -/
structure Similar (a b : Store) : Prop where
  aligned_left : a.Aligned
  aligned_right : b.Aligned
  keys : a.keys = b.keys
  next : a.nextKey = b.nextKey
  texts : ∀ name, Option.Rel Interchangeable (a.get? name) (b.get? name)

theorem similar_empty : Similar .empty .empty :=
  ⟨Store.aligned_empty, Store.aligned_empty, rfl, rfl, fun _ => .none⟩

theorem Similar.set {a b : Store} (h : Similar a b) (name : String) {content other : Content}
    (hmatches : content.Matches other) : Similar (a.set name content) (b.set name other) := by
  have hkey : a.key? name = b.key? name := by rw [Store.key?, Store.key?, h.keys]
  refine ⟨h.aligned_left.set name content, h.aligned_right.set name other, ?_, ?_, fun read => ?_⟩
  · simp only [Store.set, hkey]
    cases b.key? name with
    | some key => exact h.keys
    | none => simp only [Store.writeCell, Store.bindNext, h.keys, h.next]
  · simp only [Store.set, hkey]
    cases b.key? name with
    | some key => exact h.next
    | none => simp only [Store.writeCell, Store.bindNext, h.next]
  · rw [h.aligned_left.get?_set, h.aligned_right.get?_set]
    by_cases hread : name = read
    · rw [if_pos hread, if_pos hread]
      exact .some hmatches.encode
    · rw [if_neg hread, if_neg hread]
      exact h.texts read

/-- Writes under the same names, of contents that match. -/
def MatchingWrites : List (String × Content) → List (String × Content) → Prop :=
  List.Forall₂ fun first second => first.1 = second.1 ∧ first.2.Matches second.2

theorem matchingWrites_singleton (name : String) {content other : Content}
    (h : content.Matches other) : MatchingWrites [(name, content)] [(name, other)] :=
  .cons ⟨rfl, h⟩ .nil

theorem Similar.setAll {a b : Store} (h : Similar a b) {writes others : List (String × Content)}
    (hwrites : MatchingWrites writes others) : Similar (a.setAll writes) (b.setAll others) := by
  induction hwrites generalizing a b with
  | nil => exact h
  | @cons write other _ _ hmatches _ ih =>
    have hstep := h.set write.1 hmatches.2
    refine ih (a := a.set write.1 write.2) (b := b.set other.1 other.2) ?_
    rw [← hmatches.1]
    exact hstep

/-! ## One instruction -/

theorem BinaryOp.apply_congr {op : BinaryOp} (hop : op ≠ .div) {a a' b b' : Word}
    (ha : a.residue = a'.residue) (hb : b.residue = b'.residue) :
    ∃ x y, op.apply a b = some x ∧ op.apply a' b' = some y ∧ x.residue = y.residue := by
  cases op with
  | div => exact absurd rfl hop
  | _ => exact ⟨_, _, rfl, rfl, by simp [ha, hb]⟩

namespace Instruction

/-- The destination of an instruction that computes the word it stores. -/
def computes? : Instruction → Option String
  | .binary _ dest _ => some dest
  | .increment dest => some dest
  | .decrement dest => some dest
  | _ => none

end Instruction

namespace Machine

theorem writes_of_computes {machine : Machine} {instruction : Instruction} {dest : String}
    (hcomputes : instruction.computes? = some dest) {list : List (String × Content)}
    (h : machine.writes instruction = .ok list) : ∃ word, list = [(dest, .word word)] := by
  cases instruction <;> cases hcomputes <;>
  · obtain ⟨word, -, rfl⟩ := ok_of_map h
    exact ⟨_, rfl⟩

/-- Words with the same residue. -/
def SameResidue (x y : Word) : Prop := x.residue = y.residue

/-- Pairs of interchangeable texts. -/
def InterchangeablePair (first second : String × String) : Prop :=
  Interchangeable first.1 second.1 ∧ Interchangeable first.2 second.2

theorem numeric_matched {first second : String} (h : Interchangeable first second) :
    Matched SameResidue (numeric first) (numeric second) := by
  rcases h with rfl | ⟨x, y, hx, hy, hmod⟩
  · cases numeric first with
    | ok word => exact .success rfl
    | error fault => exact .failure
  · simp only [numeric, hx, hy]
    exact .success (Word.residue_eq_iff.2 hmod)

theorem writes_declare_matched (a b : Machine) (name : String) (width : Width)
    {literal other : String} (h : Interchangeable literal other) :
    Matched MatchingWrites (a.writes (.declare name width literal))
      (b.writes (.declare name width other)) :=
  (Matched.refl (validName name)).map fun _ _ _ => matchingWrites_singleton name (.text h)

section

variable {a b : Machine} (h : Similar a.store b.store)
include h

theorem fetch_matched (operand : Operand) (name : String) :
    Matched Interchangeable (a.fetch operand name) (b.fetch operand name) := by
  have htexts := h.texts name
  unfold fetch
  generalize a.store.get? name = first at htexts ⊢
  generalize b.store.get? name = second at htexts ⊢
  cases htexts with
  | some hboth => exact .success hboth
  | none => exact .failure

theorem fetchPair_matched (dest src : String) :
    Matched InterchangeablePair (a.fetchPair dest src) (b.fetchPair dest src) := by
  refine (fetch_matched h .destination dest).bind fun destText destText' hdest => ?_
  refine (fetch_matched h .source src).bind fun srcText srcText' hsrc => ?_
  exact .success ⟨hdest, hsrc⟩

theorem numericPair_matched (dest src : String) :
    Matched InterchangeablePair (a.numericPair dest src) (b.numericPair dest src) := by
  refine (fetchPair_matched h dest src).bind fun texts texts' hboth => ?_
  refine (numeric_matched hboth.1).bind fun _ _ _ => ?_
  refine (numeric_matched hboth.2).bind fun _ _ _ => ?_
  exact .success hboth

theorem binaryResult_matched {op : BinaryOp} (hop : op ≠ .div) (dest src : String) :
    Matched SameResidue (a.binaryResult op dest src) (b.binaryResult op dest src) := by
  refine (fetchPair_matched h dest src).bind fun texts texts' hboth => ?_
  refine (numeric_matched hboth.1).bind fun lhs lhs' hlhs => ?_
  refine (numeric_matched hboth.2).bind fun rhs rhs' hrhs => ?_
  obtain ⟨x, y, hx, hy, hresidue⟩ := BinaryOp.apply_congr hop hlhs hrhs
  rw [hx, hy]
  exact .success hresidue

theorem wordAt_matched (dest : String) : Matched SameResidue (a.wordAt dest) (b.wordAt dest) := by
  refine (fetch_matched h .destination dest).bind fun text text' hboth => ?_
  exact numeric_matched hboth

variable (hrule : a.settings.decrement = b.settings.decrement) {i j : Instruction}
  (hvariant : i.Variant j) (hdivision : ∀ dest src, i ≠ .binary .div dest src)
include hrule hvariant hdivision

/-- Variants of an instruction that is no division come to writes that match, or have the same
fault. -/
theorem writes_matched : Matched MatchingWrites (a.writes i) (b.writes j) := by
  cases hvariant with
  | declare hboth => exact writes_declare_matched a b _ _ hboth
  | refl =>
    cases i with
    | declare name width literal => exact writes_declare_matched a b name width (.inl rfl)
    | binary op dest src =>
      have hop : op ≠ .div := fun hdiv => hdivision dest src (by rw [hdiv])
      refine (binaryResult_matched h hop dest src).map fun x y hresidue => ?_
      exact matchingWrites_singleton dest (.word hresidue)
    | move dest src =>
      have hpair := numericPair_matched h dest src
      refine ((Matched.refl (validName dest)).bind fun _ _ _ => hpair).map
        fun texts texts' hboth => ?_
      exact matchingWrites_singleton dest (.text hboth.2)
    | exchange dest src =>
      refine (numericPair_matched h dest src).map fun texts texts' hboth => ?_
      exact .cons ⟨rfl, .text hboth.2⟩ (matchingWrites_singleton src (.text hboth.1))
    | increment dest =>
      refine (wordAt_matched h dest).map fun x y hresidue => ?_
      refine matchingWrites_singleton dest (.word ?_)
      rw [Word.residue_add, Word.residue_add, hresidue]
    | decrement dest =>
      refine (wordAt_matched h dest).map fun x y hresidue => ?_
      refine matchingWrites_singleton dest (.word ?_)
      rw [Word.residue_add, Word.residue_add, hresidue, decrementDelta, decrementDelta, hrule]

theorem perform_similar :
    (a.perform i).fault = (b.perform j).fault ∧
      Similar (a.perform i).machine.store (b.perform j).machine.store := by
  have hmatched := writes_matched h hrule hvariant hdivision
  generalize hfirst : a.writes i = first at hmatched
  generalize hsecond : b.writes j = second at hmatched
  cases hmatched with
  | success hwrites =>
    rw [(perform_of_writes hfirst).1, (perform_of_writes hsecond).1, (perform_of_writes hfirst).2,
      (perform_of_writes hsecond).2]
    exact ⟨rfl, h.setAll hwrites⟩
  | failure =>
    rw [(perform_of_error hfirst).1, (perform_of_error hsecond).1, (perform_of_error hfirst).2,
      (perform_of_error hsecond).2]
    exact ⟨rfl, h⟩

/-- A result that is computed is stored as the same text in both machines. -/
theorem get?_perform_computes {dest : String} (hcomputes : i.computes? = some dest)
    (hfault : (a.perform i).fault = none) :
    ∃ text, (a.perform i).machine.store.get? dest = some text ∧
      (b.perform j).machine.store.get? dest = some text := by
  have hmatched := writes_matched h hrule hvariant hdivision
  generalize hfirst : a.writes i = first at hmatched
  generalize hsecond : b.writes j = second at hmatched
  cases hmatched with
  | failure =>
    rw [(perform_of_error hfirst).1] at hfault
    cases hfault
  | success hwrites =>
    obtain ⟨word, rfl⟩ := writes_of_computes hcomputes hfirst
    obtain ⟨⟨name, content⟩, _, ⟨rfl, hmatches⟩, hrest, rfl⟩ := List.forall₂_cons_left_iff.1 hwrites
    obtain rfl := List.forall₂_nil_left_iff.1 hrest
    refine ⟨word.hex, ?_, ?_⟩
    · rw [(perform_of_writes hfirst).2]
      exact a.store.get?_set_self dest (.word word)
    · cases hmatches with
      | word hresidue =>
        rw [(perform_of_writes hsecond).2, Word.hex_eq_of_residue_eq hresidue]
        exact b.store.get?_set_self dest (.word _)

end

/-! ## Two programs -/

theorem performAll_similar {program other : List Instruction}
    (hvariants : List.Forall₂ Instruction.Variant program other)
    (hdivision : ∀ dest src, .binary .div dest src ∉ program) {a b : Machine}
    (h : Similar a.store b.store) (hsettings : a.settings = b.settings) :
    Similar (a.performAll program).store (b.performAll other).store ∧
      (a.performAll program).settings = (b.performAll other).settings := by
  induction hvariants generalizing a b with
  | nil => exact ⟨h, hsettings⟩
  | @cons i j rest others hvariant _ ih =>
    have hfirst : ∀ dest src, i ≠ .binary .div dest src :=
      fun dest src hdiv => hdivision dest src (by simp [hdiv])
    have hstep := perform_similar h (congrArg Settings.decrement hsettings) hvariant hfirst
    refine ih (fun dest src hmem => hdivision dest src (by simp [hmem])) hstep.2 ?_
    rw [perform_settings, perform_settings, hsettings]

/-- **`congruent_literals_run_alike`**: two programs without division are the same, up to literals
that are equal or congruent modulo 2^32. Run on fresh machines with the same settings, after any number
of instructions they have the same names bound to the same keys, and the texts under these are equal
or congruent. The next instruction has the same fault in both or in neither; and if it computes the
word it stores and succeeds, the stored texts are equal. -/
theorem congruent_literals_run_alike (settings : Settings) (program other : List Instruction)
    (hvariants : List.Forall₂ Instruction.Variant program other)
    (hdivision : ∀ dest src, .binary .div dest src ∉ program) (count : Nat) :
    let first := (fresh settings).performAll (program.take count)
    let second := (fresh settings).performAll (other.take count)
    (∀ name, first.store.key? name = second.store.key? name) ∧
    (∀ name, Option.Rel Interchangeable (first.store.get? name) (second.store.get? name)) ∧
    ∀ i j, program[count]? = some i → other[count]? = some j →
      (first.perform i).fault = (second.perform j).fault ∧
      ∀ dest, i.computes? = some dest → (first.perform i).fault = none →
        ∃ text, (first.perform i).machine.store.get? dest = some text ∧
          (second.perform j).machine.store.get? dest = some text := by
  intro first second
  have hstart : Similar (fresh settings).store (fresh settings).store := similar_empty
  obtain ⟨hsimilar, hsettings⟩ := performAll_similar (List.forall₂_take count hvariants)
    (fun dest src hmem => hdivision dest src (List.mem_of_mem_take hmem)) hstart rfl
  have hrule := congrArg Settings.decrement hsettings
  refine ⟨fun name => ?_, hsimilar.texts, fun i j hi hj => ?_⟩
  · rw [Store.key?, Store.key?, hsimilar.keys]
  · have hvariant : i.Variant j := by
      obtain ⟨hlt, rfl⟩ := List.getElem?_eq_some_iff.1 hi
      obtain ⟨hlt', rfl⟩ := List.getElem?_eq_some_iff.1 hj
      exact hvariants.get hlt hlt'
    have hnext : ∀ dest src, i ≠ .binary .div dest src := by
      rintro dest src rfl
      exact hdivision dest src (List.mem_of_getElem? hi)
    exact ⟨(perform_similar hsimilar hrule hvariant hnext).1,
      fun dest => get?_perform_computes hsimilar hrule hvariant hnext⟩

/-- A negative literal against one with a marker, one that is wider than 32 bits against one with
trailing text, and a literal that is no number. The product is stored as the same text, and the copy
has the same fault. -/
theorem congruent_literals_run_alike_product :
    let program : List Instruction :=
      [.declare "A" .byte "-1", .declare "B" .word "700000002", .declare "C" .byte "zz",
        .binary .mul "A" "B", .move "B" "C"]
    let other : List Instruction :=
      [.declare "A" .byte "0xffffffff", .declare "B" .word "2;", .declare "C" .byte "zz",
        .binary .mul "A" "B", .move "B" "C"]
    let first := (fresh {}).performAll (program.take 3)
    let second := (fresh {}).performAll (other.take 3)
    (∃ text, (first.perform (.binary .mul "A" "B")).machine.store.get? "A" = some text ∧
      (second.perform (.binary .mul "A" "B")).machine.store.get? "A" = some text) ∧
    (((fresh {}).performAll (program.take 4)).perform (.move "B" "C")).fault =
      (((fresh {}).performAll (other.take 4)).perform (.move "B" "C")).fault := by
  intro program other first second
  have hminus : Interchangeable "-1" "0xffffffff" :=
    .inr ⟨-1, 0xffffffff, by decide, by decide, by decide⟩
  have hwide : Interchangeable "700000002" "2;" :=
    .inr ⟨0x700000002, 2, by decide, by decide, by decide⟩
  have hvariants : List.Forall₂ Instruction.Variant program other :=
    .cons (.declare hminus) (.cons (.declare hwide) (.cons (.refl _) (.cons (.refl _)
      (.cons (.refl _) .nil))))
  have hdivision : ∀ dest src, Instruction.binary .div dest src ∉ program := by
    intro dest src
    simp [program]
  obtain ⟨-, -, hproduct⟩ := congruent_literals_run_alike {} program other hvariants hdivision 3
  obtain ⟨-, -, hcopy⟩ := congruent_literals_run_alike {} program other hvariants hdivision 4
  exact ⟨(hproduct _ _ rfl rfl).2 "A" rfl (by decide), (hcopy _ _ rfl rfl).1⟩

end Machine

end HexMachine
