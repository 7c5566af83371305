import HexMachine.Proofs.Machine.History
import HexMachine.Proofs.Store.Issue
import HexMachine.Proofs.Word.Canonical

/-!
# The texts of keys

A key is written with zeros in front up to five digits, and with more digits if it needs them. Main
statement `key_text_identifies_key`: the text determines the key, whose number stands between `0x` and
`h`. Below 2^20 all texts have the same length, and their order as texts is the order of the keys. So
dumps, which are in order of keys, are in order of the texts that are shown for them, until a key with
a sixth digit is issued.

Digits of two numbers are compared from the front, where the first difference decides. In
`numeral_lt_iff` this is said of digits that continue two numbers already read, and the induction goes
one digit on in both.
-/
namespace HexMachine

/-! ## The order of digits -/

namespace Word

theorem lt_iff_digitValue_lt {c d : Char} (hc : c ∈ smallDigits) (hd : d ∈ smallDigits) :
    c < d ↔ digitValue c < digitValue d := by
  have hrow : smallDigits.all (fun c => smallDigits.all
      fun d => decide (c < d ↔ digitValue c < digitValue d)) = true := by decide
  simpa using List.all_eq_true.1 (List.all_eq_true.1 hrow c hc) d hd

theorem eq_iff_digitValue_eq {c d : Char} (hc : c ∈ smallDigits) (hd : d ∈ smallDigits) :
    c = d ↔ digitValue c = digitValue d := by
  constructor
  · rintro rfl
    rfl
  · intro h
    rw [← (digitChar_digitValue hc).2, ← (digitChar_digitValue hd).2, h]

/-- Equally many digits continue two numbers: the numbers decide the order, and if they are equal the
digits do, whatever the texts go on with. -/
theorem numeral_lt_iff {front back : List Char} (hlength : front.length = back.length)
    (hfront : ∀ c ∈ front, c ∈ smallDigits) (hback : ∀ c ∈ back, c ∈ smallDigits)
    (start other : Nat) (rest : List Char) :
    numeral start front < numeral other back ↔
      start < other ∨ start = other ∧ front ++ rest < back ++ rest := by
  induction front generalizing back start other with
  | nil =>
    obtain rfl := List.eq_nil_of_length_eq_zero hlength.symm
    simp only [numeral, List.foldl_nil, List.nil_append, List.lt_irrefl, and_false, or_false]
  | cons c front ih =>
    cases back with
    | nil => simp at hlength
    | cons d back =>
      rw [List.forall_mem_cons] at hfront hback
      have hc := (digitChar_digitValue hfront.1).1
      have hd := (digitChar_digitValue hback.1).1
      have hnext := ih (by simpa using hlength) hfront.2 hback.2 (16 * start + digitValue c)
        (16 * other + digitValue d)
      have hstep : ∀ n e digits, numeral n (e :: digits) = numeral (16 * n + digitValue e) digits :=
        fun _ _ _ => rfl
      rw [hstep, hstep, hnext, List.cons_append, List.cons_append, List.cons_lt_cons_iff,
        lt_iff_digitValue_lt hfront.1 hback.1, eq_iff_digitValue_eq hfront.1 hback.1]
      by_cases hrest : front ++ rest < back ++ rest
      · simp only [hrest, and_true]
        omega
      · simp only [hrest, and_false, or_false]
        omega

/-- Zeros in front do not change a number. -/
theorem numeral_leftpad (width : Nat) (digits : List Char) :
    numeral 0 (digits.leftpad width '0') = numeral 0 digits := by
  have hzeros : ∀ n, numeral 0 (List.replicate n '0') = 0 := by
    intro n
    induction n with
    | zero => rfl
    | succ n ih =>
      have hzero : digitValue '0' = 0 := by decide
      simpa [numeral, List.replicate_succ, hzero] using ih
  rw [List.leftpad, numeral_append, hzeros]

end Word

/-! ## The text of a key -/

namespace Key

/-- The digits between `0x` and `h`. -/
def digits (key : Key) : List Char := (Word.hexDigits key.index).leftpad 5 '0'

theorem toList_text (key : Key) : key.text.toList = '0' :: 'x' :: (key.digits ++ ['h']) := by
  simp [text, digits]

theorem mem_smallDigits_of_mem_digits {key : Key} {c : Char} (h : c ∈ key.digits) :
    c ∈ Word.smallDigits := by
  simp only [digits, List.leftpad, List.mem_append, List.mem_replicate] at h
  rcases h with ⟨-, rfl⟩ | hdigit
  · decide
  · exact (Word.hexDigits_shape key.index).1 c hdigit

theorem numeral_digits (key : Key) : Word.numeral 0 key.digits = key.index := by
  rw [digits, Word.numeral_leftpad, Word.numeral_hexDigits]

theorem text_inj {key other : Key} : key.text = other.text ↔ key = other := by
  constructor
  · intro h
    have hchars : key.text.toList = other.text.toList := by rw [h]
    have hdigits : key.digits = other.digits := by simpa [toList_text] using hchars
    have hindex : key.index = other.index := by
      rw [← numeral_digits key, hdigits, numeral_digits]
    cases key
    cases other
    rw [Key.mk.injEq]
    exact hindex
  · rintro rfl
    rfl

theorem length_digits {key : Key} (h : key.index < 2 ^ 20) : key.digits.length = 5 := by
  have hshort : (Word.hexDigits key.index).length ≤ 5 := by
    rw [Word.hexDigits, Nat.length_toDigits_le_iff (by decide) (by decide)]
    omega
  simp only [digits, List.leftpad, List.length_append, List.length_replicate]
  omega

/-- Keys with five digits are in order of their texts. -/
theorem text_lt_iff {key other : Key} (h : key.index < 2 ^ 20) (hother : other.index < 2 ^ 20) :
    key.text < other.text ↔ key.index < other.index := by
  have hlength : key.digits.length = other.digits.length := by
    rw [length_digits h, length_digits hother]
  have hdigits := Word.numeral_lt_iff hlength (fun _ => mem_smallDigits_of_mem_digits)
    (fun _ => mem_smallDigits_of_mem_digits) 0 0 ['h']
  rw [numeral_digits, numeral_digits] at hdigits
  rw [hdigits, String.lt_iff, toList_text, toList_text, List.cons_lt_cons_iff, List.cons_lt_cons_iff]
  simp

/-- A list of keys with five digits is in order if and only if the texts are. -/
theorem pairwise_text_iff {keys : List Key} (h : ∀ key ∈ keys, key.index < 2 ^ 20) :
    keys.Pairwise (·.text < ·.text) ↔ keys.Pairwise (·.index < ·.index) :=
  List.Pairwise.iff_of_mem fun hkey hother => text_lt_iff (h _ hkey) (h _ hother)

end Key

/-! ## Dumps -/

theorem Store.Aligned.pairwise_text {store : Store} (h : store.Aligned)
    (hfew : store.nextKey ≤ 2 ^ 20) : store.cells.keys.Pairwise (·.text < ·.text) := by
  refine (Key.pairwise_text_iff fun key hkey => ?_).2 h.increasing
  have hissued := h.issued key hkey
  omega

namespace Machine

/-- Every dump held shows the first keys of the store, in the same order. -/
def ShowsKeys (machine : Machine) : Prop :=
  ∀ dump ∈ machine.transcript.held, dump.keys <+: machine.store.cells.keys

namespace ShowsKeys

/-- One more dump, whether it is recorded or not and whatever is let go for it. -/
theorem passTo {machine : Machine} (h : machine.ShowsKeys) {store : Store}
    (hkeys : machine.store.cells.keys <+: store.cells.keys) : (machine.passTo store).ShowsKeys := by
  have hgrown : ∀ dump ∈ machine.transcript.held, dump.keys <+: store.cells.keys :=
    fun dump hdump => (h dump hdump).trans hkeys
  unfold Machine.passTo dump
  split
  · intro dump hdump
    rcases List.mem_append.1 ((Transcript.held_record_sublist _ _).subset hdump) with hold | hnew
    · exact hgrown dump hold
    · rw [List.mem_singleton.1 hnew]
      exact List.prefix_refl _
  · exact hgrown

theorem perform {machine : Machine} (h : machine.ShowsKeys) (haligned : machine.store.Aligned)
    (instruction : Instruction) : (machine.perform instruction).machine.ShowsKeys :=
  perform_keeps (fun _ _ hbefore hkeys => hbefore.passTo hkeys) h haligned instruction

theorem obey {machine : Machine} (h : machine.ShowsKeys) (haligned : machine.store.Aligned)
    (command : Command) : (machine.obey command).machine.ShowsKeys := by
  cases command with
  | perform instruction => exact h.perform haligned instruction
  | emit line =>
    -- all dumps have been handed out
    intro dump hdump
    cases hdump
  | execute line =>
    have hcounted : machine.nextLine.ShowsKeys := h
    simp only [Machine.obey, execute]
    cases Instruction.ofLine line with
    | error fault => exact hcounted
    | ok instruction => exact hcounted.perform haligned instruction

end ShowsKeys

theorem showsKeys_obeyAll (settings : Settings) (commands : List Command) :
    ((fresh settings).obeyAll commands).ShowsKeys := by
  induction commands using List.reverseRecOn with
  | nil =>
    intro dump hdump
    cases hdump
  | append_singleton commands command ih =>
    rw [obeyAll_append]
    exact ih.obey (declared_obeyAll settings commands).gapless.aligned command

end Machine

/-- **`key_text_identifies_key`**: two keys have the same text if and only if they are the same, and
the digits between `0x` and `h` are those of the key's number. A key below 2^20 has a text of eight
characters, and two such keys are in the order of their texts. So as long as fewer than 2^20 keys have
been issued, the entries of a store are in the order of the texts of their keys, and so are those of
every dump that a machine holds. -/
theorem key_text_identifies_key :
    (∀ key other : Key, key.text = other.text ↔ key = other) ∧
    (∀ key : Key, ∃ digits, key.text = "0x" ++ String.ofList digits ++ "h" ∧
      (∀ c ∈ digits, Word.IsDigit c) ∧ Word.magnitude digits = key.index) ∧
    (∀ key : Key, key.index < 2 ^ 20 → key.text.length = 8) ∧
    (∀ key other : Key, key.index < 2 ^ 20 → other.index < 2 ^ 20 →
      (key.text < other.text ↔ key.index < other.index)) ∧
    (∀ ops, (Store.issued ops).length < 2 ^ 20 →
      (Store.after ops).entries.Pairwise fun first second => first.1.text < second.1.text) ∧
    ∀ settings commands, let machine := (Machine.fresh settings).obeyAll commands
      machine.store.nextKey ≤ 2 ^ 20 → ∀ dump ∈ machine.transcript.held,
        dump.entries.Pairwise fun first second => first.1.text < second.1.text := by
  refine ⟨fun _ _ => Key.text_inj, ?_, ?_, fun _ _ => Key.text_lt_iff, ?_, ?_⟩
  · intro key
    have hdigits : ∀ c ∈ key.digits, Word.IsDigit c :=
      fun c hc => .inl (Key.mem_smallDigits_of_mem_digits hc)
    refine ⟨key.digits, rfl, hdigits, ?_⟩
    rw [← Word.numeral_eq_magnitude hdigits, Key.numeral_digits]
  · intro key hkey
    rw [← String.length_toList, Key.toList_text]
    simp [Key.length_digits hkey]
  · intro ops hfew
    have horder := (Store.aligned_after ops).pairwise_text (by rw [Store.nextKey_after]; omega)
    rw [Table.keys, List.pairwise_map] at horder
    exact horder
  · intro settings commands machine hfew dump hdump
    have haligned : machine.store.Aligned := (Machine.declared_obeyAll settings commands).gapless.aligned
    have hshown : dump.keys <+: machine.store.cells.keys :=
      Machine.showsKeys_obeyAll settings commands dump hdump
    have horder := (haligned.pairwise_text hfew).sublist hshown.sublist
    rw [Dump.keys, List.pairwise_map] at horder
    exact horder

/-- Two keys on both sides of a fifth digit, a name that is written again after it was removed and so
comes last, and a machine that holds two dumps. -/
theorem key_text_identifies_key_reissued :
    let ops : List Store.Op := [.set "B" (.text "1"), .set "A" (.text "2"), .remove "B",
      .set "B" (.text "3")]
    let machine := (Machine.fresh {}).obeyAll [.execute "B DB 1", .perform (.declare "A" .word "2")]
    ((⟨0xffff⟩ : Key).text < (⟨0x10000⟩ : Key).text ∧ (⟨0x10000⟩ : Key).text.length = 8) ∧
    ((Store.after ops).entries = [(⟨2⟩, "2"), (⟨3⟩, "3")] ∧
      (Store.after ops).entries.Pairwise fun first second => first.1.text < second.1.text) ∧
    machine.transcript.held.length = 2 ∧ ∀ dump ∈ machine.transcript.held,
      dump.entries.Pairwise fun first second => first.1.text < second.1.text := by
  intro ops machine
  obtain ⟨-, -, hlength, horder, hentries, hdumps⟩ := key_text_identifies_key
  refine ⟨⟨(horder _ _ (by decide) (by decide)).2 (by decide), hlength _ (by decide)⟩,
    ⟨by decide, hentries ops (by decide)⟩, by decide, hdumps {} _ (by decide)⟩

/-- With a sixth digit the order of texts is not the order of keys any more. -/
example : (⟨2 ^ 20⟩ : Key).text < (⟨2 ^ 20 - 1⟩ : Key).text := by decide +kernel

end HexMachine
